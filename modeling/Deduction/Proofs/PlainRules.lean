import Deduction.Proofs.PlainMatching
import Deduction.Proofs.PremiseOrder
import Mathlib.Data.List.Forall2

set_option autoImplicit false

/-! # Steps that plain rules declare

What a rule without applied names declares can be said without matching: the premises, in some order,
are instances of the parts of one side of a clause, and the conclusion is an instance of the other
side, all under one substitution of formulas for names. A name that occurs only in the conclusion's
side may stand for any formula. The rule says yes to a step exactly if it declares it. -/

namespace Deduction

namespace Formula

/-! ## Substitution -/

/-- The formula with other formulas in place of the names that stand alone, wherever they stand. The
    name that a quantifier introduces stays. -/
def substitute (σ : String → Formula) : Formula → Formula
  | .app name [] => σ name
  | .app name (a :: as) => .app name (a :: as)
  | .neg f => .neg (f.substitute σ)
  | .binary op l r => .binary op (l.substitute σ) (r.substitute σ)
  | .quant q name body => .quant q name (body.substitute σ)
  | .top => .top
  | .bottom => .bottom
  | .hole i => .hole i

/-- Bindings that agree with a substitution give the same instance of a plain pattern. -/
theorem instantiate_eq_substitute {p : Formula} (hp : p.hasApplications = false) {b : Bindings}
    {σ : String → Formula}
    (hb : ∀ name, .var name ∈ p.subformulas → b.get? name = some (.formula (σ name))) :
    p.instantiate b = .ok (p.substitute σ) := by
  induction p with
  | top => rfl
  | bottom => rfl
  | app name args ih =>
      obtain rfl := hasApplications_app_eq_false.1 hp
      exact instantiate_app_eq_ok.2 (.inl ⟨rfl, hb name (List.mem_cons_self ..)⟩)
  | neg p ih =>
      have hinst := ih (by simpa using hp) fun name hname => hb name (List.mem_cons_of_mem _ hname)
      exact instantiate_neg_eq_ok.2 ⟨_, hinst, rfl⟩
  | binary op p q ihp ihq =>
      simp only [hasApplications_binary, Bool.or_eq_false_iff] at hp
      have hleft := ihp hp.1 fun name hname =>
        hb name (List.mem_cons_of_mem _ (List.mem_append_left _ hname))
      have hright := ihq hp.2 fun name hname =>
        hb name (List.mem_cons_of_mem _ (List.mem_append_right _ hname))
      exact instantiate_binary_eq_ok.2 ⟨_, hleft, _, hright, rfl⟩
  | quant q name p ih =>
      have hinst := ih (by simpa using hp) fun name hname => hb name (List.mem_cons_of_mem _ hname)
      exact instantiate_quant_eq_ok.2 ⟨_, hinst, rfl⟩
  | hole i => rfl

/-- A name that stands alone in a plain pattern with an instance is bound to a formula. -/
theorem exists_formula_of_instantiate {p f : Formula} (hp : p.hasApplications = false)
    {b : Bindings}
    (h : p.instantiate b = .ok f) {name : String} (hname : .var name ∈ p.subformulas) :
    ∃ g, b.get? name = some (.formula g) := by
  induction p generalizing f with
  | top => exact absurd hname (by simp [subformulas])
  | bottom => exact absurd hname (by simp [subformulas])
  | app n args ih =>
      obtain rfl := hasApplications_app_eq_false.1 hp
      obtain rfl : name = n := by simpa [subformulas, subformulasList] using hname
      rcases instantiate_app_eq_ok.1 h with ⟨-, hbound⟩ | ⟨c, values, hargs, -⟩
      · exact ⟨f, hbound⟩
      · exact absurd rfl hargs
  | neg p ih =>
      obtain ⟨g, hg, -⟩ := instantiate_neg_eq_ok.1 h
      exact ih (by simpa using hp) hg (by simpa [subformulas] using hname)
  | binary op p q ihp ihq =>
      simp only [hasApplications_binary, Bool.or_eq_false_iff] at hp
      obtain ⟨g, hg, g', hg', -⟩ := instantiate_binary_eq_ok.1 h
      have hside : .var name ∈ p.subformulas ∨ .var name ∈ q.subformulas := by
        simpa [subformulas] using hname
      rcases hside with hside | hside
      · exact ihp hp.1 hg hside
      · exact ihq hp.2 hg' hside
  | quant q n p ih =>
      obtain ⟨g, hg, -⟩ := instantiate_quant_eq_ok.1 h
      exact ih (by simpa using hp) hg (by simpa [subformulas] using hname)
  | hole i => exact absurd hname (by simp [subformulas])

theorem hasApplications_of_mem {f g : Formula} (hg : g.hasApplications = false)
    (hf : f ∈ g.subformulas) : f.hasApplications = false := by
  rw [hasApplications, List.any_eq_false] at hg ⊢
  intro h hh
  exact hg h (mem_subformulas_trans hh hf)

end Formula

/-! ## Matching a step -/

theorem map_eq_iff_forall_zip {α β : Type} {g : α → β} {xs : List α} {ys : List β}
    (hlength : xs.length = ys.length) : xs.map g = ys ↔ ∀ pair ∈ xs.zip ys, g pair.1 = pair.2 := by
  rw [← List.forall₂_eq_eq_eq, List.forall₂_map_left_iff, List.forall₂_iff_zip]
  simp [hlength]

/-- The formulas that names are bound to. -/
def Bindings.substitution (b : Bindings) (name : String) : Formula :=
  match b.get? name with
  | some (.formula f) => f
  | _ => .top

theorem Formula.substitute_of_instantiate {p f : Formula} (hp : p.hasApplications = false)
    {b : Bindings} (h : p.instantiate b = .ok f) : p.substitute b.substitution = f := by
  have hsame : p.instantiate b = .ok (p.substitute b.substitution) := by
    refine instantiate_eq_substitute hp fun name hname => ?_
    obtain ⟨g, hg⟩ := exists_formula_of_instantiate hp h hname
    simp [Bindings.substitution, hg]
  exact Except.ok.inj (hsame.symm.trans h)

/-- Some bindings give all the instances that a substitution gives of some plain patterns. -/
theorem exists_bindings_of_substitution (σ : String → Formula) {patterns : List Formula}
    (hplain : ∀ p ∈ patterns, p.hasApplications = false) :
    ∃ b : Bindings, ∀ p ∈ patterns, p.instantiate b = .ok (p.substitute σ) := by
  let names := (patterns.flatMap Formula.subformulas).flatMap Formula.freeNames
  refine ⟨names.map fun name => (name, .formula (σ name)), fun p hp => ?_⟩
  refine Formula.instantiate_eq_substitute (hplain p hp) fun name hname => ?_
  have hmem : name ∈ names :=
    List.mem_flatMap.2 ⟨.var name, List.mem_flatMap.2 ⟨p, hp, hname⟩, List.mem_singleton_self name⟩
  exact Assoc.get?_map_of_mem (fun name => Binding.formula (σ name)) hmem

namespace Rule

section

variable {parts premises : List Formula} {target conclusion : Formula}
  (hparts : ∀ p ∈ parts, p.hasApplications = false) (htarget : target.hasApplications = false)

include hparts htarget

theorem exists_matchStep_eq_ok_of_plain :
    ∃ found, matchStep parts premises target conclusion = .ok found := by
  have hpairs : ∀ pair ∈ parts.zip premises, pair.1.hasApplications = false :=
    fun pair hpair => hparts pair.1 (List.of_mem_zip hpair).1
  unfold matchStep matchOne
  rw [matchAll_of_plain hpairs]
  cases (matchShapes (parts.zip premises) ⟨[], []⟩).map MatchState.bindings with
  | none => exact ⟨none, rfl⟩
  | some b => exact ⟨_, matchAll_of_plain (by simpa using htarget) b⟩

/-- Matching plain parts with the premises, and the target with the conclusion, succeeds exactly if
    some substitution turns the ones into the others. -/
theorem exists_matchStep_iff_substitution (hlength : parts.length = premises.length) :
    (∃ b, matchStep parts premises target conclusion = .ok (some b)) ↔
      ∃ σ, parts.map (Formula.substitute σ) = premises ∧ target.substitute σ = conclusion := by
  have hpairs : ∀ pair ∈ parts.zip premises, pair.1.hasApplications = false :=
    fun pair hpair => hparts pair.1 (List.of_mem_zip hpair).1
  have hpair : ∀ pair ∈ [(target, conclusion)], pair.1.hasApplications = false := by
    simpa using htarget
  constructor
  · rintro ⟨b, h⟩
    obtain ⟨found, hfound, h⟩ := bind_eq_ok.1 h
    cases found with
    | none => exact absurd h (by simp [pure, Except.pure])
    | some b₁ =>
        obtain ⟨-, hinst⟩ := instances_of_matchAll hpairs hfound
        obtain ⟨hext, hinst'⟩ := instances_of_matchAll hpair h
        refine ⟨b.substitution, ?_, ?_⟩
        · refine (map_eq_iff_forall_zip hlength).2 fun pair hmem => ?_
          have hpart := Formula.instantiate_mono hext (hinst pair hmem)
          exact Formula.substitute_of_instantiate (hpairs pair hmem) hpart
        · exact Formula.substitute_of_instantiate htarget (hinst' _ (List.mem_singleton_self _))
  · rintro ⟨σ, rfl, rfl⟩
    obtain ⟨b, hb⟩ := exists_bindings_of_substitution σ (List.forall_mem_cons.2 ⟨htarget, hparts⟩)
    obtain ⟨hbtarget, hbparts⟩ := List.forall_mem_cons.1 hb
    have hinst : ∀ pair ∈ parts.zip (parts.map (Formula.substitute σ)),
        pair.1.instantiate b = .ok pair.2 := by
      intro pair hmem
      rw [hbparts pair.1 (List.of_mem_zip hmem).1, (map_eq_iff_forall_zip hlength).1 rfl pair hmem]
    have hempty : Assoc.Extends [] b := fun name bound h => absurd h (by simp [Assoc.get?])
    obtain ⟨b₁, hb₁, hext₁⟩ := exists_matchAll_of_instances hpairs hempty hinst
    obtain ⟨b₂, hb₂, -⟩ := exists_matchAll_of_instances hpair hext₁ (by simpa using hbtarget)
    exact ⟨b₂, bind_eq_ok.2 ⟨some b₁, hb₁, hb₂⟩⟩

end

/-! ## Rules -/

/-- No side of a clause has a name with arguments. -/
def Plain (rule : Rule) : Prop :=
  ∀ c ∈ rule.clauses, c.lhs.hasApplications = false ∧ c.rhs.hasApplications = false

instance (rule : Rule) : Decidable rule.Plain :=
  inferInstanceAs (Decidable (∀ c ∈ rule.clauses, _ ∧ _))

/-- The step is an instance of a clause read in one of its directions: the source is a conjunction of
    as many parts as there are premises, and one substitution turns the parts into the premises, in
    some order, and the target into the conclusion. -/
def Declares (rule : Rule) (conclusion : Formula) (premises : List Formula) : Prop :=
  premises ≠ [] ∧ ∃ c ∈ rule.clauses, ∃ (direction : Direction) (parts ordering : List Formula)
    (σ : String → Formula), parts.length = premises.length ∧
      (c.source direction).IsConjunction parts ∧ ordering.Perm premises ∧
      parts.map (Formula.substitute σ) = ordering ∧ (c.target direction).substitute σ = conclusion

theorem exists_mem_directedClauses {rule : Rule} {c : Clause} (hc : c ∈ rule.clauses)
    (direction : Direction) :
    ∃ d ∈ rule.directedClauses, d.clause = c ∧ d.direction = direction := by
  rw [← List.zipIdx_map_fst 0 rule.clauses] at hc
  obtain ⟨⟨clause, index⟩, hclause, rfl⟩ := List.mem_map.1 hc
  refine ⟨⟨index, clause, direction⟩, List.mem_flatMap.2 ⟨_, hclause, ?_⟩, rfl, rfl⟩
  cases direction <;> simp

theorem Plain.sides {rule : Rule} (hrule : rule.Plain) {d : DirectedClause}
    (hd : d ∈ rule.directedClauses) :
    d.source.hasApplications = false ∧ d.target.hasApplications = false := by
  obtain ⟨hlhs, hrhs⟩ := hrule d.clause (clause_mem_of_mem_directedClauses hd)
  exact d.sides (·.hasApplications = false) hlhs hrhs

theorem Plain.parts {rule : Rule} (hrule : rule.Plain) {d : DirectedClause}
    (hd : d ∈ rule.directedClauses) {count : Int} {parts : List Formula}
    (hparts : d.source.splitConjuncts count = some parts) :
    ∀ p ∈ parts, p.hasApplications = false := by
  intro p hp
  have hmem := Formula.mem_subformulas_of_splitConjuncts hparts p hp
  exact Formula.hasApplications_of_mem (hrule.sides hd).1 hmem

theorem Plain.decides {rule : Rule} (hrule : rule.Plain) (conclusion : Formula)
    (premises : List Formula) : rule.Decides conclusion premises := by
  intro d hd parts ordering hparts _
  exact exists_matchStep_eq_ok_of_plain (hrule.parts hd hparts) (hrule.sides hd).2

/-- What a plain rule licenses by matching is what it declares. -/
theorem Plain.licenses_iff_declares {rule : Rule} (hrule : rule.Plain) {conclusion : Formula}
    {premises : List Formula} :
    rule.Licenses conclusion premises ↔ rule.Declares conclusion premises := by
  have hstep : ∀ d ∈ rule.directedClauses, ∀ parts ordering : List Formula,
      d.source.splitConjuncts premises.length = some parts → ordering.Perm premises →
        ((∃ b, matchStep parts ordering d.target conclusion = .ok (some b)) ↔ ∃ σ,
          parts.map (Formula.substitute σ) = ordering ∧ d.target.substitute σ = conclusion) := by
    intro d hd parts ordering hparts hperm
    exact exists_matchStep_iff_substitution (hrule.parts hd hparts) (hrule.sides hd).2
      (Formula.length_of_splitConjuncts hparts hperm)
  unfold Licenses Declares
  refine and_congr_right fun _ => ⟨?_, ?_⟩
  · rintro ⟨d, hd, parts, ordering, b, hparts, hperm, hb⟩
    obtain ⟨σ, hpremises, hconclusion⟩ := (hstep d hd parts ordering hparts hperm).1 ⟨b, hb⟩
    obtain ⟨hlength, hconjunction⟩ := Formula.splitConjuncts_eq_some_iff.1 hparts
    exact ⟨d.clause, clause_mem_of_mem_directedClauses hd, d.direction, parts, ordering, σ,
      by exact_mod_cast hlength, hconjunction, hperm, hpremises, hconclusion⟩
  · rintro ⟨c, hc, direction, parts, ordering, σ, hlength, hconjunction, hperm, hpremises,
      hconclusion⟩
    obtain ⟨d, hd, rfl, rfl⟩ := exists_mem_directedClauses hc direction
    have hparts : d.source.splitConjuncts premises.length = some parts :=
      Formula.splitConjuncts_eq_some_iff.2 ⟨by exact_mod_cast hlength, hconjunction⟩
    obtain ⟨b, hb⟩ := (hstep d hd parts ordering hparts hperm).2 ⟨σ, hpremises, hconclusion⟩
    exact ⟨d, hd, parts, ordering, b, hparts, hperm, hb⟩

/-- A rule without applied names always has an answer, whatever the formulas of the step, and says yes
    exactly to the steps that it declares. -/
theorem applies_iff_declares {rule : Rule} (hrule : rule.Plain) (conclusion : Formula)
    (premises : List Formula) :
    ∃ answer, rule.applies conclusion premises = .ok answer ∧
      (answer = true ↔ rule.Declares conclusion premises) := by
  obtain ⟨answer, hanswer, hiff⟩ := (hrule.decides conclusion premises).exists_applies_eq_ok
  exact ⟨answer, hanswer, hiff.trans hrule.licenses_iff_declares⟩

/-- Absorption of `~P -> Q` by `P`: the premises may come in the other order, and in the other
    direction `Q` may be anything. Nothing leads to `Q` itself. -/
theorem applies_iff_declares_absorption :
    let p := Formula.var "P"
    let q := Formula.var "Q"
    let rule := Equivalences.conditionalAbsorption
    rule.Plain ∧ rule.Declares p [.implies (.neg p) q, p] ∧
      rule.Declares (.and p (.implies (.neg p) q)) [p] ∧
      ¬ rule.Declares q [.implies (.neg p) q, p] := by
  intro p q rule
  have hrule : rule.Plain := by decide
  refine ⟨hrule, ?_, ?_, ?_⟩
  · obtain ⟨answer, hanswer, hiff⟩ := applies_iff_declares hrule p [.implies (.neg p) q, p]
    have hyes : rule.applies p [.implies (.neg p) q, p] = .ok true := by decide +kernel
    exact hiff.1 (Except.ok.inj (hanswer.symm.trans hyes))
  · obtain ⟨answer, hanswer, hiff⟩ := applies_iff_declares hrule (.and p (.implies (.neg p) q)) [p]
    have hyes : rule.applies (.and p (.implies (.neg p) q)) [p] = .ok true := by decide +kernel
    exact hiff.1 (Except.ok.inj (hanswer.symm.trans hyes))
  · obtain ⟨answer, hanswer, hiff⟩ := applies_iff_declares hrule q [.implies (.neg p) q, p]
    have hno : rule.applies q [.implies (.neg p) q, p] = .ok false := by decide +kernel
    obtain rfl : answer = false := Except.ok.inj (hanswer.symm.trans hno)
    intro hdeclares
    exact absurd (hiff.2 hdeclares) (by simp)

end Rule

end Deduction
