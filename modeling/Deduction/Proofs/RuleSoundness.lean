import Deduction.Proofs.CatalogCheck
import Deduction.Proofs.Conjuncts
import Deduction.Proofs.Matching

set_option autoImplicit false

/-! # Licensed steps keep the truth

A rule whose clauses are equivalences licenses only steps between premises and a conclusion that say
the same. The bindings of a match turn an interpretation of the formulas into one of the pattern's
names: a name alone has the truth value of its formula, an applied name is the function that its
context computes. Under this interpretation each pattern has the truth value of its instance, so the
equivalence of the two sides of a clause carries over to the step. Neither the premises nor the
conclusion need to be truth-functional: only the patterns are free of quantifiers. -/

namespace Deduction

/-! ## Patterns and their instances -/

/-- What the names of a pattern stand for under bindings. -/
noncomputable def Bindings.interpretation (b : Bindings) (I : Interpretation) : Interpretation :=
  fun name values =>
    match b.get? name with
    | none => false
    | some (.formula f) => f.truth I []
    | some (.context c) => c.body.truth I values

namespace Formula

theorem truthList_instantiateList {b : Bindings} {I : Interpretation} :
    ∀ {as values : List Formula},
      (∀ a ∈ as, ∀ f, a.instantiate b = .ok f →
        f.truth I [] = a.truth (b.interpretation I) []) →
      instantiateList b as = .ok values →
      values.map (truth I []) = as.map (truth (b.interpretation I) [])
  | [], values, _, h => by
      obtain rfl : [] = values := by simpa [instantiateList] using h
      rfl
  | a :: as, values, ih, h => by
      obtain ⟨f, fs, hf, hfs, rfl⟩ := instantiateList_cons.1 h
      simp only [List.map_cons]
      rw [ih a (List.mem_cons_self ..) f hf,
        truthList_instantiateList (fun a' ha' => ih a' (List.mem_cons_of_mem _ ha')) hfs]

/-- An instance has the truth value of its pattern. -/
theorem truth_instantiate {b : Bindings} {I : Interpretation} {p f : Formula}
    (hp : p.hasQuantifiers = false) (h : p.instantiate b = .ok f) :
    f.truth I [] = p.truth (b.interpretation I) [] := by
  induction p generalizing f with
  | top => obtain rfl := Except.ok.inj h; rfl
  | bottom => obtain rfl := Except.ok.inj h; rfl
  | app name args ih =>
      rcases instantiate_app_eq_ok.1 h with ⟨rfl, hname⟩ | ⟨c, values, -, hname, -, hvalues, hfill⟩
      · simp [truth, Bindings.interpretation, hname]
      · have hquant : ∀ a ∈ args, a.hasQuantifiers = false := by simpa using hp
        have htruths := truthList_instantiateList (fun a ha f hf => ih a ha (hquant a ha) hf) hvalues
        rw [Context.truth_fill I [] hfill, htruths]
        simp [truth, truthList_eq, Bindings.interpretation, hname]
  | neg p ih =>
      obtain ⟨g, hg, rfl⟩ := instantiate_neg_eq_ok.1 h
      simp only [truth]
      rw [ih (by simpa using hp) hg]
  | binary op p q ihp ihq =>
      simp only [hasQuantifiers_binary, Bool.or_eq_false_iff] at hp
      obtain ⟨g, hg, g', hg', rfl⟩ := instantiate_binary_eq_ok.1 h
      simp only [truth]
      rw [ihp hp.1 hg, ihq hp.2 hg']
  | quant q name p ih => simp at hp
  | hole i => obtain rfl := Except.ok.inj h; rfl

/-! ## Parts of a conjunction and orders of premises -/

/-- A conjunction holds exactly if its parts do. -/
theorem IsConjunction.holds_iff {f : Formula} {parts : List Formula} (h : f.IsConjunction parts)
    (I : Interpretation) : f.Holds I ↔ ∀ p ∈ parts, p.Holds I := by
  have hand (l r : Formula) : (Formula.and l r).Holds I ↔ l.Holds I ∧ r.Holds I := by
    simp [Holds, truth, Connective.truth]
  exact ⟨h.forall_mem fun l r => (hand l r).1, h.of_forall_mem fun l r hl hr => (hand l r).2 ⟨hl, hr⟩⟩

/-- The parts of a conjunction have no more quantifiers than it. -/
theorem IsConjunction.hasQuantifiers_eq_false {f : Formula} {parts : List Formula}
    (h : f.IsConjunction parts) (hf : f.hasQuantifiers = false) :
    ∀ p ∈ parts, p.hasQuantifiers = false := by
  refine h.forall_mem (fun l r hand => ?_) hf
  simpa only [hasQuantifiers_binary, Bool.or_eq_false_iff] using hand

end Formula

theorem perm_of_mem_choices {α : Type} {xs : List α} {choice : α × List α}
    (h : choice ∈ choices xs) : (choice.1 :: choice.2).Perm xs := by
  induction xs generalizing choice with
  | nil => exact absurd h (by simp [choices])
  | cons x xs ih =>
      rcases List.mem_cons.1 h with rfl | h
      · exact List.Perm.refl _
      · obtain ⟨inner, hinner, rfl⟩ := List.mem_map.1 h
        exact (List.Perm.swap x inner.1 inner.2).trans ((ih hinner).cons x)

theorem perm_of_mem_arrangements {α : Type} {count : Nat} {xs ys : List α}
    (hcount : xs.length = count) (h : ys ∈ arrangements count xs) : ys.Perm xs := by
  induction count generalizing xs ys with
  | zero =>
      obtain rfl := List.length_eq_zero_iff.1 hcount
      obtain rfl : ys = [] := by simpa [arrangements] using h
      exact List.Perm.refl _
  | succ count ih =>
      obtain ⟨choice, hchoice, hys⟩ := List.mem_flatMap.1 h
      obtain ⟨rest, hrest, rfl⟩ := List.mem_map.1 hys
      have hperm := perm_of_mem_choices hchoice
      have hlength : choice.2.length = count := by
        have := hperm.length_eq
        rw [List.length_cons, hcount] at this
        omega
      exact ((ih hlength hrest).cons choice.1).trans hperm

/-- An order of a list has the same elements. -/
theorem perm_of_mem_orderings {α : Type} {xs ys : List α} (h : ys ∈ orderings xs) : ys.Perm xs :=
  perm_of_mem_arrangements rfl h

/-! ## Steps -/

namespace Clause.Sound

variable {c : Clause}

theorem source_plain (hc : c.Sound) (d : Direction) : (c.source d).hasQuantifiers = false := by
  cases d with
  | forward => exact hc.lhs_plain
  | backward => exact hc.rhs_plain

theorem target_plain (hc : c.Sound) (d : Direction) : (c.target d).hasQuantifiers = false := by
  cases d with
  | forward => exact hc.rhs_plain
  | backward => exact hc.lhs_plain

theorem source_holds_iff (hc : c.Sound) (d : Direction) (I : Interpretation) :
    (c.source d).Holds I ↔ (c.target d).Holds I := by
  unfold Formula.Holds
  cases d with
  | forward => exact iff_of_eq (congrArg (· = true) (hc.equivalent I))
  | backward => exact iff_of_eq (congrArg (· = true) (hc.equivalent I).symm)

end Clause.Sound

namespace Rule

/-- The bindings of a step turn the parts into the premises and the target into the conclusion. -/
theorem matchStep_spec {parts premises : List Formula} {target conclusion : Formula} {b : Bindings}
    (hpremises : ∀ f ∈ premises, f.hasHoles = false) (hconclusion : conclusion.hasHoles = false)
    (h : matchStep parts premises target conclusion = .ok (some b)) :
    (∀ pair ∈ parts.zip premises, pair.1.instantiate b = .ok pair.2) ∧
      target.instantiate b = .ok conclusion := by
  obtain ⟨found, hfound, h⟩ := bind_eq_ok.1 h
  cases found with
  | none => exact absurd h (by simp [pure, Except.pure])
  | some b₁ =>
      obtain ⟨-, hparts⟩ :=
        matchAll_spec (fun pair hpair => hpremises pair.2 (List.of_mem_zip hpair).2) hfound
      obtain ⟨hext, htarget⟩ := matchAll_spec (by simpa using hconclusion) h
      refine ⟨fun pair hpair => Formula.instantiate_mono hext (hparts pair hpair), ?_⟩
      exact htarget (target, conclusion) (List.mem_singleton.2 rfl)

/-- Premises that are instances of parts all hold exactly if the parts do. -/
theorem forall_holds_iff_of_instances {b : Bindings} {I : Interpretation} :
    ∀ {parts premises : List Formula}, parts.length = premises.length →
      (∀ p ∈ parts, p.hasQuantifiers = false) →
      (∀ pair ∈ parts.zip premises, pair.1.instantiate b = .ok pair.2) →
      ((∀ f ∈ premises, f.Holds I) ↔ ∀ p ∈ parts, p.Holds (b.interpretation I))
  | [], [], _, _, _ => by simp
  | p :: parts, f :: premises, hlength, hplain, h => by
      have hhead : f.Holds I ↔ p.Holds (b.interpretation I) := by
        have hinst := h (p, f) (List.mem_cons_self ..)
        unfold Formula.Holds
        rw [Formula.truth_instantiate (hplain p (List.mem_cons_self ..)) hinst]
      have htail := forall_holds_iff_of_instances (I := I) (Nat.succ.inj hlength)
        (fun p' hp' => hplain p' (List.mem_cons_of_mem _ hp'))
        (fun pair hpair => h pair (List.mem_cons_of_mem _ hpair))
      rw [List.forall_mem_cons, List.forall_mem_cons, hhead, htail]

/-- What a clause has found: its parts match the premises in some order, and its target matches the
    conclusion. -/
theorem DirectedClause.matchStep_of_find {d : DirectedClause} {conclusion : Formula}
    {premises : List Formula} {m : Match} (h : d.find conclusion premises = .ok (some m)) :
    ∃ parts ordering, d.source.splitConjuncts premises.length = some parts ∧
      ordering.Perm premises ∧ m.clause = d.index ∧ m.direction = d.direction ∧
      matchStep parts ordering d.target conclusion = .ok (some m.bindings) := by
  unfold find at h
  split at h
  · exact absurd h (by simp)
  · next parts hparts =>
      obtain ⟨ordering, hordering, h⟩ := exists_of_findSomeM?_eq_ok h
      obtain ⟨found, hfound, h⟩ := bind_eq_ok.1 h
      obtain ⟨b, rfl, rfl⟩ := Option.map_eq_some_iff.1 (pure_eq_ok.1 h)
      exact ⟨parts, ordering, hparts, perm_of_mem_orderings hordering, rfl, rfl, hfound⟩

/-- A step that a sound clause licenses leads from premises to a conclusion that holds exactly if all
    of them do. -/
theorem DirectedClause.holds_iff_of_find {d : DirectedClause} (hd : d.clause.Sound)
    {conclusion : Formula} {premises : List Formula}
    (hpremises : ∀ f ∈ premises, f.hasHoles = false) (hconclusion : conclusion.hasHoles = false)
    {m : Match} (h : d.find conclusion premises = .ok (some m)) (I : Interpretation) :
    (∀ f ∈ premises, f.Holds I) ↔ conclusion.Holds I := by
  obtain ⟨parts, ordering, hparts, hperm, -, -, hstep⟩ := d.matchStep_of_find h
  obtain ⟨-, hconjunction⟩ := Formula.splitConjuncts_eq_some_iff.1 hparts
  have hlength := Formula.length_of_splitConjuncts hparts hperm
  obtain ⟨hinst, htarget⟩ :=
    matchStep_spec (fun f hf => hpremises f (hperm.mem_iff.1 hf)) hconclusion hstep
  have hsource : d.source.hasQuantifiers = false := hd.source_plain d.direction
  have htruth : conclusion.truth I [] = d.target.truth (m.bindings.interpretation I) [] :=
    Formula.truth_instantiate (hd.target_plain d.direction) htarget
  calc (∀ f ∈ premises, f.Holds I)
      ↔ ∀ f ∈ ordering, f.Holds I :=
        forall_congr' fun f => imp_congr_left hperm.mem_iff.symm
    _ ↔ ∀ p ∈ parts, p.Holds (m.bindings.interpretation I) :=
        forall_holds_iff_of_instances hlength (hconjunction.hasQuantifiers_eq_false hsource) hinst
    _ ↔ d.source.Holds (m.bindings.interpretation I) := (hconjunction.holds_iff _).symm
    _ ↔ d.target.Holds (m.bindings.interpretation I) := hd.source_holds_iff d.direction _
    _ ↔ conclusion.Holds I := by
        unfold Formula.Holds
        rw [htruth]

/-- What a rule has found is what one of its clauses has found. -/
theorem exists_find_of_findMatch {rule : Rule} {conclusion : Formula} {premises : List Formula}
    {m : Match} (h : rule.findMatch conclusion premises = .ok (some m)) :
    ∃ d ∈ rule.directedClauses, d.find conclusion premises = .ok (some m) := by
  unfold findMatch at h
  split at h
  · exact absurd h (by simp)
  · exact exists_of_findSomeM?_eq_ok h

theorem getElem?_of_mem_directedClauses {rule : Rule} {d : DirectedClause}
    (h : d ∈ rule.directedClauses) : rule.clauses[d.index]? = some d.clause := by
  obtain ⟨⟨clause, index⟩, hclause, hd⟩ := List.mem_flatMap.1 h
  have hget : rule.clauses[index]? = some clause := List.mem_zipIdx_iff_getElem?.1 hclause
  simp only [List.mem_cons, List.not_mem_nil, or_false] at hd
  rcases hd with rfl | rfl
  · exact hget
  · exact hget

theorem clause_mem_of_mem_directedClauses {rule : Rule} {d : DirectedClause}
    (h : d ∈ rule.directedClauses) : d.clause ∈ rule.clauses :=
  List.mem_of_getElem? (getElem?_of_mem_directedClauses h)

/-- What holds of a step that a rule licenses holds already of the clause that licenses it. -/
theorem exists_clause_of_applies {rule : Rule} {conclusion : Formula} {premises : List Formula}
    (h : rule.applies conclusion premises = .ok true) :
    ∃ (d : DirectedClause) (m : Match), d.clause ∈ rule.clauses ∧
      d.find conclusion premises = .ok (some m) := by
  obtain ⟨found, hfound, h⟩ := bind_eq_ok.1 h
  obtain ⟨m, rfl⟩ := Option.isSome_iff_exists.1 (pure_eq_ok.1 h)
  obtain ⟨d, hd, hfind⟩ := exists_find_of_findMatch hfound
  exact ⟨d, m, clause_mem_of_mem_directedClauses hd, hfind⟩

/-- A sound rule leads from premises to a conclusion that holds exactly if all of them do. -/
theorem holds_iff_of_applies {rule : Rule} (hrule : rule.Sound) {conclusion : Formula}
    {premises : List Formula} (hpremises : ∀ f ∈ premises, f.hasHoles = false)
    (hconclusion : conclusion.hasHoles = false)
    (h : rule.applies conclusion premises = .ok true) (I : Interpretation) :
    (∀ f ∈ premises, f.Holds I) ↔ conclusion.Holds I := by
  obtain ⟨d, m, hclause, hfind⟩ := exists_clause_of_applies h
  exact d.holds_iff_of_find (hrule d.clause hclause) hpremises hconclusion hfind I

/-- If every clause of a rule passes the check, each under a limit of its own, then every step that
    the rule licenses leads from premises to a conclusion that has the truth value of their
    conjunction. -/
theorem truth_eq_of_applies {rule : Rule}
    (hrule : ∀ c ∈ rule.clauses, ∃ (label : String) (index maxSlots : Int) (report : ClauseReport),
      checkClause label index c.lhs c.rhs maxSlots = .ok report ∧ report.ok = true)
    {conclusion : Formula} {premises : List Formula}
    (hpremises : ∀ f ∈ premises, f.hasHoles = false) (hconclusion : conclusion.hasHoles = false)
    (h : rule.applies conclusion premises = .ok true) (I : Interpretation) :
    (premises.all fun f => f.truth I []) = conclusion.truth I [] := by
  have hsound : rule.Sound := by
    intro c hc
    obtain ⟨label, index, maxSlots, report, hcheck, hok⟩ := hrule c hc
    exact Clause.sound_of_check hcheck hok
  rw [Bool.eq_iff_iff, List.all_eq_true]
  exact holds_iff_of_applies hsound hpremises hconclusion h I

/-- Substitution below a quantifier: from `P <-> Q` and `forall x, (P & F(x))` to
    `(P <-> Q) & (forall x, (Q & F(x)))`. -/
theorem truth_eq_of_applies_substitution :
    let given := Formula.iff (.var "P") (.var "Q")
    let below (f : Formula) := Formula.quant .all "x" (.and f (.app "F" [.var "x"]))
    let premises := [given, below (.var "P")]
    let conclusion := Formula.and given (below (.var "Q"))
    let I : Interpretation := fun name _ => name == "F"
    Equivalences.biconditionalSubstitution.applies conclusion premises = .ok true ∧
      (premises.all fun f => f.truth I []) = conclusion.truth I [] := by
  intro given below premises conclusion I
  have happlies : Equivalences.biconditionalSubstitution.applies conclusion premises = .ok true := by
    decide +kernel
  refine ⟨happlies, truth_eq_of_applies ?_ (by decide) (by decide) happlies I⟩
  intro c hc
  have hagrees := Equivalences.agrees_of_mem Equivalences.biconditionalSubstitution (by decide) c hc
  obtain ⟨report, hreport, hok⟩ := Clause.passes_of_agrees hagrees "substitution" 0
  exact ⟨_, _, _, report, hreport, hok⟩

end Rule

end Deduction
