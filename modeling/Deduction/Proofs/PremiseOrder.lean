import Deduction.Proofs.MatchConflicts
import Deduction.Proofs.RuleSoundness

set_option autoImplicit false

/-! # The order of the premises

A rule tries the premises of a step in every order. So only the premises matter and not their order,
unless matching fails for good. Whether it does so does not hang on the order either. A clause that
matches any step at all uses each name with one number of arguments, and matching such a clause never
fails; and a clause that does not match is tried with the premises in every order anyway. -/

namespace Deduction

/-! ## All orders -/

section

variable {α : Type}

theorem exists_mem_choices {xs : List α} {x : α} (hx : x ∈ xs) :
    ∃ rest, (x, rest) ∈ choices xs := by
  induction xs with
  | nil => exact absurd hx (by simp)
  | cons y xs ih =>
      rcases List.mem_cons.1 hx with rfl | hx
      · exact ⟨xs, List.mem_cons_self ..⟩
      · obtain ⟨rest, hrest⟩ := ih hx
        exact ⟨y :: rest, List.mem_cons_of_mem _ (List.mem_map.2 ⟨(x, rest), hrest, rfl⟩)⟩

theorem mem_arrangements_of_perm {count : Nat} {xs ys : List α} (hcount : xs.length = count)
    (h : ys.Perm xs) : ys ∈ arrangements count xs := by
  induction count generalizing xs ys with
  | zero =>
      obtain rfl := List.length_eq_zero_iff.1 hcount
      rw [List.perm_nil.1 h]
      exact List.mem_singleton_self _
  | succ count ih =>
      cases ys with
      | nil =>
          rw [← h.length_eq] at hcount
          exact absurd hcount (by simp)
      | cons y ys =>
          -- the first element is chosen from the list, and the others are an order of what is left
          obtain ⟨rest, hrest⟩ := exists_mem_choices (h.subset (List.mem_cons_self ..))
          have hys : ys.Perm rest := (h.trans (perm_of_mem_choices hrest).symm).cons_inv
          have hlength : rest.length = count := by
            rw [← hys.length_eq]
            rw [← h.length_eq, List.length_cons] at hcount
            omega
          exact List.mem_flatMap.2 ⟨(y, rest), hrest, List.mem_map.2 ⟨ys, ih hlength hys, rfl⟩⟩

theorem mem_orderings {xs ys : List α} : ys ∈ orderings xs ↔ ys.Perm xs :=
  ⟨perm_of_mem_orderings, mem_arrangements_of_perm rfl⟩

end

/-! ## Clauses that license steps -/

namespace Rule

variable {rule : Rule} {d : DirectedClause} {conclusion : Formula} {premises others : List Formula}

/-- The clause matches the premises in some order, and the conclusion. -/
def DirectedClause.Licenses (d : DirectedClause) (conclusion : Formula) (premises : List Formula) :
    Prop :=
  ∃ parts ordering b, d.source.splitConjuncts premises.length = some parts ∧
    ordering.Perm premises ∧ matchStep parts ordering d.target conclusion = .ok (some b)

/-- Matching the clause with the premises in whatever order, and the conclusion, does not fail for
    good. -/
def DirectedClause.Decides (d : DirectedClause) (conclusion : Formula) (premises : List Formula) :
    Prop :=
  ∀ parts ordering, d.source.splitConjuncts premises.length = some parts →
    ordering.Perm premises → ∃ found, matchStep parts ordering d.target conclusion = .ok found

namespace DirectedClause

/-- A clause finds nothing exactly if no order of the premises matches, and none fails for good. -/
theorem find_eq_ok_none : d.find conclusion premises = .ok none ↔
    ∀ parts ordering, d.source.splitConjuncts premises.length = some parts →
      ordering.Perm premises → matchStep parts ordering d.target conclusion = .ok none := by
  unfold find
  cases hparts : d.source.splitConjuncts premises.length with
  | none => simp
  | some parts =>
      constructor
      · intro h parts' ordering hparts' hordering
        obtain rfl := Option.some.inj hparts'
        have hnone := findSomeM?_eq_ok_none.1 h ordering (mem_orderings.2 hordering)
        obtain ⟨found, hfound, hnone⟩ := bind_eq_ok.1 hnone
        rw [hfound, Option.map_eq_none_iff.1 (pure_eq_ok.1 hnone)]
      · intro h
        refine findSomeM?_eq_ok_none.2 fun ordering hordering => ?_
        exact bind_eq_ok.2 ⟨none, h parts ordering rfl (mem_orderings.1 hordering), rfl⟩

/-- If the clause has a result, it is a match exactly if the clause licenses the step. -/
theorem licenses_iff_of_find {found : Option Match} (h : d.find conclusion premises = .ok found) :
    found.isSome = true ↔ d.Licenses conclusion premises := by
  cases found with
  | none =>
      refine ⟨fun hsome => absurd hsome (by simp), ?_⟩
      rintro ⟨parts, ordering, b, hparts, hordering, hb⟩
      rw [find_eq_ok_none.1 h parts ordering hparts hordering] at hb
      cases hb
  | some m =>
      obtain ⟨parts, ordering, hparts, hordering, -, -, hstep⟩ := matchStep_of_find h
      exact ⟨fun _ => ⟨parts, ordering, m.bindings, hparts, hordering, hstep⟩, fun _ => rfl⟩

theorem Decides.exists_find_eq_ok (h : d.Decides conclusion premises) :
    ∃ found, d.find conclusion premises = .ok found := by
  unfold find
  cases hparts : d.source.splitConjuncts premises.length with
  | none => exact ⟨none, rfl⟩
  | some parts =>
      have hstep : ∀ ordering ∈ orderings premises, ∃ found,
          (do let found ← matchStep parts ordering d.target conclusion
              return found.map fun b => Match.mk d.index d.direction b) = Except.ok found := by
        intro ordering hordering
        obtain ⟨found, hfound⟩ := h parts ordering hparts (mem_orderings.1 hordering)
        exact ⟨_, bind_eq_ok.2 ⟨found, hfound, rfl⟩⟩
      obtain ⟨found, hfound, -⟩ := exists_findSomeM?_eq_ok hstep
      exact ⟨found, hfound⟩

theorem Licenses.perm (h : d.Licenses conclusion premises) (hperm : premises.Perm others) :
    d.Licenses conclusion others := by
  obtain ⟨parts, ordering, b, hparts, hordering, hb⟩ := h
  rw [hperm.length_eq] at hparts
  exact ⟨parts, ordering, b, hparts, hordering.trans hperm, hb⟩

end DirectedClause

/-! ## Rules that decide steps -/

/-- Some clause, in some direction, matches the premises in some order, and the conclusion. -/
def Licenses (rule : Rule) (conclusion : Formula) (premises : List Formula) : Prop :=
  premises ≠ [] ∧ ∃ d ∈ rule.directedClauses, ∃ parts ordering b,
    d.source.splitConjuncts premises.length = some parts ∧ ordering.Perm premises ∧
      matchStep parts ordering d.target conclusion = .ok (some b)

/-- Matching a clause with the premises in whatever order, and the conclusion, does not fail for
    good. -/
def Decides (rule : Rule) (conclusion : Formula) (premises : List Formula) : Prop :=
  ∀ d ∈ rule.directedClauses, ∀ parts ordering,
    d.source.splitConjuncts premises.length = some parts → ordering.Perm premises →
      ∃ found, matchStep parts ordering d.target conclusion = .ok found

/-- A rule whose matching does not fail finds a match for what it licenses, and for nothing else. -/
theorem Decides.exists_findMatch_eq_ok (h : rule.Decides conclusion premises) :
    ∃ found, rule.findMatch conclusion premises = .ok found ∧
      (found.isSome = true ↔ rule.Licenses conclusion premises) := by
  by_cases hnil : premises = []
  · subst hnil
    exact ⟨none, rfl, by simp [Licenses]⟩
  · have hfind : ∀ d ∈ rule.directedClauses, ∃ found, d.find conclusion premises = .ok found :=
      fun d hd => DirectedClause.Decides.exists_find_eq_ok (h d hd)
    obtain ⟨found, hfound, hiff⟩ := exists_findSomeM?_eq_ok hfind
    have hmatch : rule.findMatch conclusion premises = .ok found := by
      rw [findMatch, if_neg (by simpa using hnil), hfound]
    refine ⟨found, hmatch, hiff.trans ?_⟩
    constructor
    · rintro ⟨d, hd, m, hm⟩
      exact ⟨hnil, d, hd, (DirectedClause.licenses_iff_of_find hm).1 rfl⟩
    · rintro ⟨-, d, hd, hlicenses⟩
      obtain ⟨found', hfound'⟩ := hfind d hd
      have hsome := (DirectedClause.licenses_iff_of_find hfound').2 hlicenses
      obtain ⟨m, rfl⟩ := Option.isSome_iff_exists.1 hsome
      exact ⟨d, hd, m, hfound'⟩

/-- A rule whose matching does not fail says yes exactly to what it licenses. -/
theorem Decides.exists_applies_eq_ok (h : rule.Decides conclusion premises) :
    ∃ answer, rule.applies conclusion premises = .ok answer ∧
      (answer = true ↔ rule.Licenses conclusion premises) := by
  obtain ⟨found, hfound, hiff⟩ := h.exists_findMatch_eq_ok
  exact ⟨found.isSome, bind_eq_ok.2 ⟨found, hfound, rfl⟩, hiff⟩

end Rule

/-! ## Uniform rules -/

/-- Both sides use each name with the same number of arguments throughout. -/
def Clause.Uniform (c : Clause) : Prop :=
  ∃ arity, c.lhs.UniformIn arity ∧ c.rhs.UniformIn arity

def Rule.Uniform (rule : Rule) : Prop := ∀ c ∈ rule.clauses, c.Uniform

theorem Rule.uniform_of_subformulas {rule : Rule} (arity : String → Nat)
    (h : ∀ c ∈ rule.clauses, (∀ f ∈ c.lhs.subformulas, f.rootUniformIn arity = true) ∧
      ∀ f ∈ c.rhs.subformulas, f.rootUniformIn arity = true) : rule.Uniform := by
  intro c hc
  obtain ⟨hlhs, hrhs⟩ := h c hc
  exact ⟨arity, Formula.uniformIn_of_subformulas hlhs, Formula.uniformIn_of_subformulas hrhs⟩

theorem Formula.mem_subformulas_of_splitConjuncts {f : Formula} {count : Int}
    {parts : List Formula} (h : f.splitConjuncts count = some parts) :
    ∀ p ∈ parts, p ∈ f.subformulas := by
  refine (splitConjuncts_eq_some_iff.1 h).2.forall_mem (fun l r hand => ?_) (mem_subformulas_self f)
  constructor
  · exact mem_subformulas_trans (by simp [subformulas, mem_subformulas_self]) hand
  · exact mem_subformulas_trans (by simp [subformulas, mem_subformulas_self]) hand

namespace Rule

/-- Matching the parts and the target of a clause fails for good only at a conflict. -/
theorem explained_of_matchStep {uses inner : String → Nat → Prop} {parts premises : List Formula}
    {target conclusion : Formula} (hparts : ∀ p ∈ parts, p.UsesAmong uses inner)
    (htarget : target.UsesAmong uses inner) (hpremises : ∀ f ∈ premises, f.hasHoles = false)
    (hconclusion : conclusion.hasHoles = false) {e : MatchError}
    (h : matchStep parts premises target conclusion = .error e) : e.Explained uses inner := by
  have hempty : Bindings.Obey [] (Binding.FromUse uses) := by
    intro name bound h
    cases h
  have hpairs : ∀ pair ∈ parts.zip premises, pair.2.hasHoles = false :=
    fun pair hpair => hpremises pair.2 (List.of_mem_zip hpair).2
  have huses : ∀ pair ∈ parts.zip premises, pair.1.UsesAmong uses inner :=
    fun pair hpair => hparts pair.1 (List.of_mem_zip hpair).1
  rcases bind_eq_error.1 h with h | ⟨found, hfound, h⟩
  · exact explained_of_matchAll hempty hpairs huses h
  · cases found with
    | none => cases h
    | some b =>
        have hb : b.Obey (Binding.FromUse uses) :=
          hempty.matchAll hpairs (fun pair hpair => (huses pair hpair).grants) hfound
        exact explained_of_matchAll hb (by simpa using hconclusion) (by simpa using htarget) h

/-- What both sides of a clause have in common is the same in both directions. -/
theorem DirectedClause.sides (d : DirectedClause) (property : Formula → Prop)
    (hlhs : property d.clause.lhs) (hrhs : property d.clause.rhs) :
    property d.source ∧ property d.target := by
  unfold DirectedClause.source DirectedClause.target
  cases d.direction with
  | forward => exact ⟨hlhs, hrhs⟩
  | backward => exact ⟨hrhs, hlhs⟩

/-- Matching patterns that use each name with one number of arguments does not fail for good. -/
theorem exists_matchStep_eq_ok {arity : String → Nat} {parts premises : List Formula}
    {target conclusion : Formula} (hparts : ∀ p ∈ parts, p.UniformIn arity)
    (htarget : target.UniformIn arity) (hpremises : ∀ f ∈ premises, f.hasHoles = false)
    (hconclusion : conclusion.hasHoles = false) :
    ∃ found, matchStep parts premises target conclusion = .ok found := by
  cases hstep : matchStep parts premises target conclusion with
  | ok found => exact ⟨found, rfl⟩
  | error e =>
      refine absurd ?_ (e.not_explained_ownCount arity)
      exact explained_of_matchStep (fun p hp => (hparts p hp).usesAmong) htarget.usesAmong
        hpremises hconclusion hstep

theorem Uniform.decides {rule : Rule} (hrule : rule.Uniform) {conclusion : Formula}
    {premises : List Formula} (hpremises : ∀ f ∈ premises, f.hasHoles = false)
    (hconclusion : conclusion.hasHoles = false) : rule.Decides conclusion premises := by
  intro d hd parts ordering hparts hordering
  obtain ⟨arity, hlhs, hrhs⟩ := hrule d.clause (clause_mem_of_mem_directedClauses hd)
  obtain ⟨hsource, htarget⟩ := d.sides (·.UniformIn arity) hlhs hrhs
  refine exists_matchStep_eq_ok (fun p hp => ?_) htarget (fun f hf => ?_) hconclusion
  · exact hsource.of_mem (Formula.mem_subformulas_of_splitConjuncts hparts p hp)
  · exact hpremises f (hordering.mem_iff.1 hf)

/-! ## Other orders of the premises -/

section

variable {rule : Rule} {d : DirectedClause} {conclusion : Formula} {premises others : List Formula}
  (hpremises : ∀ f ∈ premises, f.hasHoles = false) (hconclusion : conclusion.hasHoles = false)

include hpremises hconclusion

/-- A clause that licenses a step does not fail for good at any step from as many premises: its parts
    and its target have instances under the same bindings, so it uses each name with one number of
    arguments. -/
theorem DirectedClause.Licenses.decides (h : d.Licenses conclusion premises) {conclusion' : Formula}
    (hlength : others.length = premises.length) (hothers : ∀ f ∈ others, f.hasHoles = false)
    (hconclusion' : conclusion'.hasHoles = false) : d.Decides conclusion' others := by
  obtain ⟨parts, ordering, b, hparts, hordering, hstep⟩ := h
  obtain ⟨hinst, htarget⟩ :=
    matchStep_spec (fun f hf => hpremises f (hordering.mem_iff.1 hf)) hconclusion hstep
  have hcount := Formula.length_of_splitConjuncts hparts hordering
  have huniform : ∀ p ∈ parts, p.UniformIn b.argumentCount := by
    intro p hp
    rw [← List.map_fst_zip (Nat.le_of_eq hcount)] at hp
    obtain ⟨pair, hpair, rfl⟩ := List.mem_map.1 hp
    exact Formula.uniformIn_of_instantiate (hinst pair hpair)
  intro parts' ordering' hparts' hordering'
  rw [hlength, hparts] at hparts'
  obtain rfl := Option.some.inj hparts'
  refine exists_matchStep_eq_ok huniform (Formula.uniformIn_of_instantiate htarget) ?_ hconclusion'
  exact fun f hf => hothers f (hordering'.mem_iff.1 hf)

variable (hperm : premises.Perm others)

include hperm

/-- A clause that has a result has one for the premises in any other order, and finds a match there
    exactly if it does so here. -/
theorem DirectedClause.exists_find_of_perm {found : Option Match}
    (h : d.find conclusion premises = .ok found) :
    ∃ found', d.find conclusion others = .ok found' ∧ found'.isSome = found.isSome := by
  cases found with
  | none =>
      -- all orders have been tried, and those of the other premises are the same
      refine ⟨none, find_eq_ok_none.2 fun parts ordering hparts hordering => ?_, rfl⟩
      rw [← hperm.length_eq] at hparts
      exact find_eq_ok_none.1 h parts ordering hparts (hordering.trans hperm.symm)
  | some m =>
      -- some orders may not have been tried, but the clause has licensed a step
      have hlicenses : d.Licenses conclusion premises := (licenses_iff_of_find h).1 rfl
      have hothers : ∀ f ∈ others, f.hasHoles = false :=
        fun f hf => hpremises f (hperm.mem_iff.2 hf)
      have hdecides : d.Decides conclusion others :=
        hlicenses.decides hpremises hconclusion hperm.length_eq.symm hothers hconclusion
      obtain ⟨found', hfound'⟩ := hdecides.exists_find_eq_ok
      exact ⟨found', hfound', (licenses_iff_of_find hfound').2 (hlicenses.perm hperm)⟩

theorem exists_findMatch_of_perm {found : Option Match}
    (h : rule.findMatch conclusion premises = .ok found) :
    ∃ found', rule.findMatch conclusion others = .ok found' ∧ found'.isSome = found.isSome := by
  have hempty : others.isEmpty = premises.isEmpty := by
    rw [Bool.eq_iff_iff, List.isEmpty_iff_length_eq_zero, List.isEmpty_iff_length_eq_zero,
      hperm.length_eq]
  unfold findMatch at h ⊢
  rw [hempty]
  split at h
  · next hnil => exact ⟨found, by rw [if_pos hnil, h], rfl⟩
  · next hnil =>
      rw [if_neg hnil]
      refine exists_findSomeM?_congr (fun d _ found hfound => ?_) h
      exact d.exists_find_of_perm hpremises hconclusion hperm hfound

/-- A rule that has an answer has the same one for the premises in any other order. -/
theorem applies_of_perm {answer : Bool} (h : rule.applies conclusion premises = .ok answer) :
    rule.applies conclusion others = .ok answer := by
  obtain ⟨found, hfound, h⟩ := bind_eq_ok.1 h
  obtain ⟨found', hfound', hsame⟩ := exists_findMatch_of_perm hpremises hconclusion hperm hfound
  exact bind_eq_ok.2 ⟨found', hfound', by rw [hsame, h]⟩

end

end Rule

namespace Equivalences

/-- Of the names in the built-in rules, `S` stands for a context around one formula and all others
    for formulas. -/
def arity (name : String) : Nat := if name = "S" then 1 else 0

theorem uniform {rule : Rule} (hrule : rule ∈ rules) : rule.Uniform := by
  have hcheck : ∀ rule ∈ rules, ∀ c ∈ rule.clauses,
      (∀ f ∈ c.lhs.subformulas, f.rootUniformIn arity = true) ∧
        ∀ f ∈ c.rhs.subformulas, f.rootUniformIn arity = true := by
    decide
  exact Rule.uniform_of_subformulas arity (hcheck rule hrule)

end Equivalences

namespace Rule

/-- Whatever the rule: if it has an answer for a step, it has the same one for the premises in any other
    order. It has an answer if matching does not fail for good, and so do the built-in rules always. -/
theorem applies_in_any_order {rule : Rule} {conclusion : Formula} {premises others : List Formula}
    (hpremises : ∀ f ∈ premises, f.hasHoles = false) (hconclusion : conclusion.hasHoles = false)
    (hperm : premises.Perm others) :
    (∀ answer, rule.applies conclusion premises = .ok answer ↔
      rule.applies conclusion others = .ok answer) ∧
    (rule.Decides conclusion premises ∨ rule ∈ Equivalences.rules →
      ∃ answer, rule.applies conclusion premises = .ok answer ∧
        rule.applies conclusion others = .ok answer) := by
  have hothers : ∀ f ∈ others, f.hasHoles = false := fun f hf => hpremises f (hperm.mem_iff.2 hf)
  constructor
  · intro answer
    exact ⟨applies_of_perm hpremises hconclusion hperm,
      applies_of_perm hothers hconclusion hperm.symm⟩
  · intro hrule
    have hdecides : rule.Decides conclusion premises :=
      hrule.elim id fun hbuiltin => (Equivalences.uniform hbuiltin).decides hpremises hconclusion
    obtain ⟨answer, hanswer, -⟩ := hdecides.exists_applies_eq_ok
    exact ⟨answer, hanswer, applies_of_perm hpremises hconclusion hperm hanswer⟩

/-- A premise that is there twice, and a rule whose first clause uses `x` with two numbers of
    arguments. This clause fails for good where a premise is a negation; where none is, the second
    clause is found in every order. Substitution is one of the built-in rules. -/
theorem applies_in_any_order_repeated :
    let x := Formula.var "x"
    let phi := Formula.var "phi"
    let psi := Formula.var "psi"
    let rule : Rule := ⟨"R", [
      ⟨.and (.and (.neg x) phi) (.app "S" [.app "x" [x]]), .top⟩,
      ⟨.and (.and phi phi) (.implies phi psi), psi⟩]⟩
    let p := Formula.var "P"
    let q := Formula.var "Q"
    let substitution := Equivalences.biconditionalSubstitution
    [p, .implies p q, p].Perm [.implies p q, p, p] ∧
      rule.applies q [p, .implies p q, p] = .ok true ∧
      rule.applies q [.implies p q, p, p] = .ok true ∧
      rule.applies q [.neg p, .implies p q, p] = .error (.arity ⟨"x", 0, 1⟩) ∧
      ∃ answer, substitution.applies (.and (.iff p q) (.neg q)) [.iff p q, .neg p] = .ok answer ∧
        substitution.applies (.and (.iff p q) (.neg q)) [.neg p, .iff p q] = .ok answer := by
  intro x phi psi rule p q substitution
  have hperm : [p, .implies p q, p].Perm [.implies p q, p, p] := List.Perm.swap ..
  have hanswer : rule.applies q [p, .implies p q, p] = .ok true := by decide +kernel
  refine ⟨hperm, hanswer, ?_, by decide +kernel, ?_⟩
  · exact ((applies_in_any_order (by decide) (by decide) hperm).1 true).1 hanswer
  · exact (applies_in_any_order (by decide) (by decide) (List.Perm.swap ..)).2 (.inr (by decide))

end Rule

end Deduction
