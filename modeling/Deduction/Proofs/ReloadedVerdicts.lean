import Deduction.Proofs.PremiseOrder
import Deduction.Proofs.RoundTrip
import Deduction.Proofs.VerdictSoundness
import Mathlib

set_option autoImplicit false

/-! # Verdicts after loading

Loading gives the parts of a derivation new numbers. What is visible from a part does not depend on
the numbers, but the order in which the premises of a step reach its rule does. As the order of the
premises does not matter to the rules, the verdicts stay the same, but for the wording of errors. -/

namespace Deduction

/-! ## Results of all elements of a list -/

section

variable {α α' β γ ε : Type}

/-- Elements in another order give their results in another order. -/
theorem exists_mapM_eq_some_of_perm {fn : α → Option β} {xs ys : List α} {us : List β}
    (hperm : xs.Perm ys) (h : xs.mapM fn = some us) :
    ∃ vs, ys.mapM fn = some vs ∧ us.Perm vs := by
  induction hperm generalizing us with
  | nil => exact ⟨us, h, .refl us⟩
  | cons x _ ih =>
      rw [List.mapM_cons] at h
      obtain ⟨u, hu, h⟩ := Option.bind_eq_some_iff.1 h
      obtain ⟨us', hus', h⟩ := Option.bind_eq_some_iff.1 h
      obtain rfl := Option.some.inj h
      obtain ⟨vs, hvs, hperm⟩ := ih hus'
      exact ⟨u :: vs, by simp [hu, hvs], hperm.cons u⟩
  | swap x y xs =>
      rw [List.mapM_cons, List.mapM_cons] at h
      obtain ⟨u, hu, h⟩ := Option.bind_eq_some_iff.1 h
      obtain ⟨us', hus', h⟩ := Option.bind_eq_some_iff.1 h
      obtain ⟨v, hv, hus'⟩ := Option.bind_eq_some_iff.1 hus'
      obtain ⟨vs, hvs, hus'⟩ := Option.bind_eq_some_iff.1 hus'
      obtain rfl := Option.some.inj hus'
      obtain rfl := Option.some.inj h
      exact ⟨v :: u :: vs, by simp [hu, hv, hvs], .swap v u vs⟩
  | trans _ _ ih ih' =>
      obtain ⟨vs, hvs, hperm⟩ := ih h
      obtain ⟨ws, hws, hperm'⟩ := ih' hvs
      exact ⟨ws, hws, hperm.trans hperm'⟩

theorem isEmpty_eq_of_mem_iff {xs : List α} {ys : List α'} {g : α → α'}
    (h : ∀ y, y ∈ ys ↔ y ∈ xs.map g) : ys.isEmpty = xs.isEmpty := by
  rw [Bool.eq_iff_iff, List.isEmpty_iff, List.isEmpty_iff, List.eq_nil_iff_forall_not_mem,
    List.eq_nil_iff_forall_not_mem]
  simp only [h, List.mem_map, not_exists, not_and, forall_apply_eq_imp_iff₂]

theorem mapM_map_eq {m : Type → Type} [Monad m] [LawfulMonad m] {fn : α → m β} {fn' : α' → m β}
    {g : α → α'} {xs : List α} (h : ∀ x ∈ xs, fn' (g x) = fn x) :
    (xs.map g).mapM fn' = xs.mapM fn := by
  induction xs with
  | nil => rfl
  | cons x xs ih =>
      obtain ⟨hx, hxs⟩ := List.forall_mem_cons.1 h
      rw [List.map_cons, List.mapM_cons, List.mapM_cons, hx, ih hxs]

/-- What is kept of each result can be taken from all of them together. -/
theorem map_mapM (fn : α → Except ε β) (kept : β → γ) (xs : List α) :
    (xs.mapM fn).map (List.map kept) = xs.mapM fun x => (fn x).map kept := by
  induction xs with
  | nil => rfl
  | cons x xs ih =>
      rw [List.mapM_cons, List.mapM_cons, ← ih]
      cases fn x with
      | error e => rfl
      | ok y => cases xs.mapM fn <;> rfl

end

/-! ## Visibility after renumbering -/

section

variable {f : Int → Int} {r : Ref}

theorem premisesVisibleFrom?_renumber {premises : List Premise} (seen : List Ref)
    (h : ∀ x ∈ premises.map Premise.ref, x.renumber f = r.renumber f → x = r) :
    premisesVisibleFrom? (r.renumber f) (seen.map (Ref.renumber f))
        (premises.map (Premise.renumber f)) =
      (premisesVisibleFrom? r seen premises).map (List.map (Ref.renumber f)) := by
  induction premises generalizing seen with
  | nil => rfl
  | cons p premises ih =>
      obtain ⟨hp, hpremises⟩ := List.forall_mem_cons.1 h
      have hr : r.renumber f = (p.renumber f).ref ↔ r = p.ref :=
        ⟨fun heq => (hp heq.symm).symm, congrArg _⟩
      have ih := ih (seen ++ [p.ref]) hpremises
      rw [List.map_append] at ih
      simp only [List.map_cons, premisesVisibleFrom?, hr]
      split
      · rfl
      · exact ih

theorem Lines.visibleFrom?_renumber {L : Lines} (seen : List Ref)
    (h : ∀ x ∈ L.parts, x.renumber f = r.renumber f → x = r) :
    (L.renumber f).visibleFrom? (r.renumber f) (seen.map (Ref.renumber f)) =
      (L.visibleFrom? r seen).map (List.map (Ref.renumber f)) := by
  induction L generalizing seen with
  | nil => rfl
  | step i content rest ih =>
      have hi : r.renumber f = .step (f i) ↔ r = .step i :=
        ⟨fun heq => (h (.step i) (List.mem_cons_self ..) heq.symm).symm, congrArg _⟩
      have ih := ih (seen ++ [.step i]) fun x hx => h x (List.mem_cons_of_mem _ hx)
      rw [List.map_append] at ih
      simp only [renumber, visibleFrom?, hi]
      split
      · rfl
      · exact ih
  | subproof i premises body rest ihbody ihrest =>
      simp only [mem_parts_subproof] at h
      have hi : r.renumber f = .subproof (f i) ↔ r = .subproof i :=
        ⟨fun heq => (h (.subproof i) (.inl rfl) heq.symm).symm, congrArg _⟩
      have hpremises := premisesVisibleFrom?_renumber seen fun x hx => h x (.inr (.inl hx))
      have hbody := ihbody (seen ++ premises.map Premise.ref)
        fun x hx => h x (.inr (.inr (.inl hx)))
      have hrest := ihrest (seen ++ [.subproof i]) fun x hx => h x (.inr (.inr (.inr hx)))
      rw [List.map_append] at hbody hrest
      simp only [renumber, visibleFrom?, hi, hpremises, Premise.map_ref_renumber, hbody]
      split
      · rfl
      · cases premisesVisibleFrom? r seen premises with
        | some visible => rfl
        | none =>
            cases body.visibleFrom? r (seen ++ premises.map Premise.ref) with
            | some visible => rfl
            | none => exact hrest

end

namespace Derivation

variable {d : Derivation} {f : Int → Int} {r : Ref}

theorem visibleFrom_renumber (h : ∀ x ∈ d.refs, x.renumber f = r.renumber f → x = r) :
    (d.renumber f).visibleFrom (r.renumber f) = (d.visibleFrom r).map (Ref.renumber f) := by
  have hpremises := premisesVisibleFrom?_renumber [] fun x hx => h x (mem_refs.2 (.inl hx))
  have hlines := Lines.visibleFrom?_renumber d.root.premiseRefs
    fun x hx => h x (mem_refs.2 (.inr hx))
  have hrefs : (d.renumber f).root.premiseRefs = d.root.premiseRefs.map (Ref.renumber f) :=
    Premise.map_ref_renumber f d.root.premises
  unfold visibleFrom
  rw [hrefs]
  simp only [renumber, List.map_nil] at hpremises ⊢
  rw [hpremises, hlines]
  cases premisesVisibleFrom? r [] d.root.premises with
  | some visible => rfl
  | none => cases d.root.lines.visibleFrom? r d.root.premiseRefs <;> rfl

section

variable (hinj : Set.InjOn (Ref.renumber f) {r | r ∈ d.refs})

include hinj

theorem canCite_renumber {line dep : Ref} (hline : line ∈ d.refs) (hdep : dep ∈ d.refs) :
    (d.renumber f).canCite (line.renumber f) (dep.renumber f) = d.canCite line dep := by
  have hcontains : dep.renumber f ∈ (d.renumber f).refs ↔ dep ∈ d.refs := by
    rw [refs_renumber]
    exact ⟨fun _ => hdep, List.mem_map_of_mem⟩
  have hsame : dep.renumber f = line.renumber f ↔ dep = line :=
    ⟨fun heq => hinj hdep hline heq, congrArg _⟩
  have hvisible : dep.renumber f ∈ (d.renumber f).visibleFrom (line.renumber f) ↔
      dep ∈ d.visibleFrom line := by
    rw [visibleFrom_renumber fun x hx heq => hinj hx hline heq, List.mem_map]
    refine ⟨?_, fun hmem => ⟨dep, hmem, rfl⟩⟩
    rintro ⟨k, hk, heq⟩
    rwa [← hinj (mem_refs_of_visible hk) hdep heq]
  rw [Bool.eq_iff_iff]
  simp only [canCite, Bool.and_eq_true, contains_iff, bne_iff_ne, ne_eq, List.contains_iff_mem,
    hcontains, hsame, hvisible]

/-! ## What a step cites after renumbering -/

theorem badDependency?_renumber {content : Step} (hr : r ∈ d.refs)
    (hcites : content.CitesAmong d.refs) :
    ((d.renumber f).badDependency? (r.renumber f) (content.renumber f)).isNone =
      (d.badDependency? r content).isNone := by
  rw [Bool.eq_iff_iff, Option.isNone_iff_eq_none, Option.isNone_iff_eq_none,
    badDependency?_eq_none_iff, badDependency?_eq_none_iff]
  simp only [Step.mem_lineDeps_renumber, Step.mem_subproofDeps_renumber, List.forall_mem_map,
    Ref.isLine_renumber, Ref.isSubproof_renumber]
  refine and_congr (forall₂_congr fun dep hdep => ?_) (forall₂_congr fun dep hdep => ?_)
  · rw [canCite_renumber hinj hr (hcites.1 dep hdep).2]
  · rw [canCite_renumber hinj hr (hcites.2 dep hdep).2]

/-- The cited lines are the same after renumbering, but for their order. -/
theorem sorted_lineDeps_renumber {content : Step} (hcites : content.CitesAmong d.refs) :
    (Ref.sorted (content.renumber f).lineDeps).Perm
      ((Ref.sorted content.lineDeps).map (Ref.renumber f)) := by
  have hnodup : ((Ref.sorted content.lineDeps).map (Ref.renumber f)).Nodup := by
    refine (Ref.nodup_sorted _).map_on fun x hx y hy heq => ?_
    exact hinj (hcites.1 x (Ref.mem_sorted.1 hx)).2 (hcites.1 y (Ref.mem_sorted.1 hy)).2 heq
  refine (List.perm_ext_iff_of_nodup (Ref.nodup_sorted _) hnodup).2 fun dep => ?_
  rw [Ref.mem_sorted, Step.mem_lineDeps_renumber, List.mem_map, List.mem_map]
  simp only [Ref.mem_sorted]

/-- The formulas of the cited lines are the same after renumbering, but for their order. -/
theorem citedFormulas?_renumber {content : Step} (hcites : content.CitesAmong d.refs) :
    (d.citedFormulas? content = none ∧ (d.renumber f).citedFormulas? (content.renumber f) = none) ∨
      ∃ premises premises', d.citedFormulas? content = some premises ∧
        (d.renumber f).citedFormulas? (content.renumber f) = some premises' ∧
        premises.Perm premises' := by
  have hmap : ((Ref.sorted content.lineDeps).map (Ref.renumber f)).mapM (d.renumber f).formulaOf =
      d.citedFormulas? content := by
    refine mapM_map_eq fun dep hdep => formulaOf_renumber fun x hx heq => ?_
    exact hinj hx (hcites.1 dep (Ref.mem_sorted.1 hdep)).2 heq
  have hperm := sorted_lineDeps_renumber hinj hcites
  cases hcited : d.citedFormulas? content with
  | some premises =>
      rw [hcited] at hmap
      obtain ⟨premises', hpremises', hsame⟩ := exists_mapM_eq_some_of_perm hperm.symm hmap
      exact .inr ⟨premises, premises', rfl, hpremises', hsame⟩
  | none =>
      refine .inl ⟨rfl, ?_⟩
      cases hcited' : (d.renumber f).citedFormulas? (content.renumber f) with
      | none => rfl
      | some premises' =>
          obtain ⟨premises, hpremises, -⟩ := exists_mapM_eq_some_of_perm hperm hcited'
          rw [hmap, hcited] at hpremises
          cases hpremises

end

end Derivation

/-! ## Verdicts -/

theorem Catalog.isCollection_of_cited?_eq_error {catalog : Catalog} {v : Value} {e : Obstacle}
    (h : catalog.cited? v = .error e) : v.isCollection = true ∧ e = .notAKey v := by
  unfold Catalog.cited? at h
  split at h
  · cases h
  · split at h
    · next hcollection => exact ⟨hcollection, (Except.error.inj h).symm⟩
    · cases h

/-- What a verdict says, but for the wording of the error. -/
def Verdict.outcome (v : Verdict) : LineStatus × Option ErrorKind :=
  (v.status, v.error.map VerificationError.kind)

/-- The kind of an error decides over the verdict. -/
theorem Verdict.outcome_ofError_congr {e e' : Option VerificationError}
    (h : e.map VerificationError.kind = e'.map VerificationError.kind) :
    (Verdict.ofError e).outcome = (Verdict.ofError e').outcome := by
  cases e with
  | none =>
      obtain rfl := Option.map_eq_none_iff.1 h.symm
      rfl
  | some error =>
      obtain ⟨error', rfl, hkind⟩ := Option.map_eq_some_iff.1 h.symm
      cases hcase : error.kind <;> rw [hcase] at hkind <;>
        simp [Verdict.outcome, Verdict.ofError, hkind, hcase]

namespace Derivation

variable {d : Derivation} {f : Int → Int} {r : Ref}
  (hinj : Set.InjOn (Ref.renumber f) {r | r ∈ d.refs})

/-- The kind of the error that a check found, if any. -/
def kindOf (checked : Except Obstacle (Option VerificationError)) :
    Except Obstacle (Option ErrorKind) :=
  checked.map (Option.map VerificationError.kind)

theorem kindOf_error (kind : ErrorKind) (message : String) :
    kindOf (.ok (some ⟨kind, message⟩)) = .ok (some kind) := rfl

/-- The kinds of errors in a step that cites a rule, in the order of the checks. -/
theorem kindOf_verifyStep (d : Derivation) (r : Ref) (content : Step) (conclusion : Formula)
    (rule : Rule) :
    kindOf (d.verifyStep r content conclusion rule) =
      if !(d.badDependency? r content).isNone then .ok (some .badDependency)
      else if !content.subproofDeps.isEmpty || content.lineDeps.isEmpty then
        .ok (some .wrongDependencyCount)
      else (d.citedFormulas? content).elim (.ok (some .incomplete)) fun premises =>
        ((rule.applies conclusion premises).mapError .matching).map fun answer =>
          if answer then none else some .wrongRule := by
  unfold verifyStep
  cases d.badDependency? r content with
  | some dep => rfl
  | none =>
      cases content.subproofDeps.isEmpty with
      | false => rfl
      | true =>
          cases content.lineDeps.isEmpty with
          | true => rfl
          | false =>
              cases d.citedFormulas? content with
              | none => rfl
              | some premises =>
                  show kindOf ((rule.applies conclusion premises).mapError .matching >>= _) =
                    ((rule.applies conclusion premises).mapError .matching).map _
                  cases (rule.applies conclusion premises).mapError Obstacle.matching with
                  | error e => rfl
                  | ok answer => cases answer <;> rfl

variable (hholes : ∀ r g, d.formulaOf r = some g → g.hasHoles = false)

include hholes in
theorem hasHoles_of_cited {content : Step} {premises : List Formula}
    (h : d.citedFormulas? content = some premises) : ∀ g ∈ premises, g.hasHoles = false := by
  intro g hg
  obtain ⟨dep, -, hdep⟩ := mem_of_mapM_eq_some h hg
  exact hholes dep g hdep

include hinj hholes in
theorem verifyStep_renumber {content : Step} {conclusion : Formula} {rule : Rule} (hr : r ∈ d.refs)
    (hcites : content.CitesAmong d.refs) (hrule : rule.Uniform)
    (hconclusion : conclusion.hasHoles = false) :
    kindOf ((d.renumber f).verifyStep (r.renumber f) (content.renumber f) conclusion rule) =
      kindOf (d.verifyStep r content conclusion rule) := by
  have hsubproofs : (content.renumber f).subproofDeps.isEmpty = content.subproofDeps.isEmpty :=
    isEmpty_eq_of_mem_iff fun _ => Step.mem_subproofDeps_renumber
  have hlines : (content.renumber f).lineDeps.isEmpty = content.lineDeps.isEmpty :=
    isEmpty_eq_of_mem_iff fun _ => Step.mem_lineDeps_renumber
  rw [kindOf_verifyStep, kindOf_verifyStep, badDependency?_renumber hinj hr hcites, hsubproofs,
    hlines]
  rcases citedFormulas?_renumber hinj hcites with
    ⟨hnone, hnone'⟩ | ⟨premises, premises', hsome, hsome', hperm⟩
  · rw [hnone, hnone']
  · have hpremises := hasHoles_of_cited hholes hsome
    obtain ⟨answer, hanswer, -⟩ := (hrule.decides hpremises hconclusion).exists_applies_eq_ok
    rw [hsome, hsome', Option.elim_some, Option.elim_some, hanswer,
      Rule.applies_of_perm hpremises hconclusion hperm hanswer]

/-- The kinds of errors in a step, in the order of the checks. -/
theorem kindOf_verifyLine_step (catalog : Catalog) {id : Int} {content : Step}
    (h : d.step? (.step id) = some content) :
    kindOf (d.verifyLine catalog (some (.step id))) =
      content.conclusion.elim (.ok (some .incomplete)) fun conclusion =>
        if content.rule = .null then .ok (some .noRule)
        else catalog.cited? content.rule >>= fun found =>
          found.elim (.ok (some .unknownRule)) fun rule =>
            kindOf (d.verifyStep (.step id) content conclusion rule) := by
  simp only [verifyLine, h]
  cases content.conclusion with
  | none => rfl
  | some conclusion =>
      dsimp only [Option.elim_some]
      split
      · rfl
      · cases catalog.cited? content.rule with
        | error e => rfl
        | ok found => cases found <;> rfl

variable {catalog : Catalog} (hrules : ∀ rule ∈ catalog.rules, rule.Uniform)
  (hcites : ∀ r content, d.step? r = some content → content.CitesAmong d.refs)

include hinj hholes hrules hcites in
/-- The check of a part finds an error of the same kind after renumbering. -/
theorem verifyLine_renumber (hr : r ∈ d.refs) :
    kindOf ((d.renumber f).verifyLine catalog (some (r.renumber f))) =
      kindOf (d.verifyLine catalog (some r)) := by
  have hcontains : d.contains r = true := contains_iff.2 hr
  have hcontains' : (d.renumber f).contains (r.renumber f) = true := by
    rw [contains_iff, refs_renumber]
    exact List.mem_map_of_mem hr
  cases r with
  | premise id =>
      have hcontains' : (d.renumber f).contains (.premise (f id)) = true := hcontains'
      show kindOf ((d.renumber f).verifyLine catalog (some (.premise (f id)))) = _
      simp only [verifyLine, hcontains, hcontains', if_true]
  | subproof id =>
      have hcontains' : (d.renumber f).contains (.subproof (f id)) = true := hcontains'
      show kindOf ((d.renumber f).verifyLine catalog (some (.subproof (f id)))) = _
      simp only [verifyLine, hcontains, hcontains', if_true, kindOf_error]
  | step id =>
      obtain ⟨content, hcontent⟩ := Option.isSome_iff_exists.1 (step?_isSome.2 hr)
      have hstep : (d.renumber f).step? (.step (f id)) = some (content.renumber f) := by
        have hstep := step?_renumber fun x hx heq => hinj hx hr heq
        rwa [hcontent] at hstep
      show kindOf ((d.renumber f).verifyLine catalog (some (.step (f id)))) = _
      rw [kindOf_verifyLine_step catalog hcontent, kindOf_verifyLine_step catalog hstep]
      show content.conclusion.elim _ _ = content.conclusion.elim _ _
      cases hconclusion : content.conclusion with
      | none => rfl
      | some conclusion =>
          have hformula : d.formulaOf (.step id) = some conclusion := by
            rw [formulaOf, hcontent]
            exact hconclusion
          rw [Option.elim_some, Option.elim_some]
          show (if content.rule = .null then _ else catalog.cited? content.rule >>= _) =
            if content.rule = .null then _ else catalog.cited? content.rule >>= _
          split
          · rfl
          · cases hcited : catalog.cited? content.rule with
            | error e => rfl
            | ok found =>
                cases found with
                | none => rfl
                | some rule =>
                    have hsame := verifyStep_renumber hinj hholes hr (hcites _ content hcontent)
                      (hrules rule (Catalog.mem_rules_of_cited? hcited))
                      (hholes _ conclusion hformula)
                    exact hsame

theorem map_outcome_ofError_congr {checked checked' : Except Obstacle (Option VerificationError)}
    (h : kindOf checked = kindOf checked') :
    (checked.map Verdict.ofError).map Verdict.outcome =
      (checked'.map Verdict.ofError).map Verdict.outcome := by
  cases checked with
  | error e =>
      cases checked' with
      | error e' => exact congrArg Except.error (Except.error.inj h)
      | ok error' => cases h
  | ok error =>
      cases checked' with
      | error e' => cases h
      | ok error' =>
          exact congrArg Except.ok (Verdict.outcome_ofError_congr (Except.ok.inj h))

include hinj hholes hrules hcites in
theorem verdict_renumber (hr : r ∈ d.refs) :
    ((d.renumber f).verdict catalog (some (r.renumber f))).map Verdict.outcome =
      (d.verdict catalog (some r)).map Verdict.outcome := by
  have hcontains : (d.renumber f).contains (r.renumber f) = d.contains r := by
    rw [contains_iff.2 hr, contains_iff, refs_renumber]
    exact List.mem_map_of_mem hr
  have hformula := formulaOf_renumber fun x hx heq => hinj hx hr heq
  unfold verdict
  dsimp only [Option.any_some]
  rw [Ref.isLine_renumber, hcontains, hformula]
  split
  · rfl
  · exact map_outcome_ofError_congr (verifyLine_renumber hinj hholes hrules hcites hr)

theorem lines_renumber (f : Int → Int) (d : Derivation) :
    (d.renumber f).lines = d.lines.map fun (depth, r) => (depth, r.renumber f) := by
  unfold lines
  rw [walk_renumber, List.filter_map]
  congr 1
  refine List.filter_congr fun entry _ => ?_
  exact Ref.isLine_renumber f entry.2

/-- What the verdicts on the lines say, in document order, but for the wording of errors. -/
def outcomes (d : Derivation) (catalog : Catalog) :
    Except Obstacle (List (LineStatus × Option ErrorKind)) :=
  (d.verifyAll catalog).map (List.map fun entry => entry.2.outcome)

include hinj hholes hrules hcites in
theorem outcomes_renumber :
    (d.renumber f).outcomes catalog = d.outcomes catalog := by
  have hverdict (d : Derivation) (entry : Nat × Ref) :
      (do let verdict ← d.verdict catalog (some entry.2)
          return (entry.2, verdict) : Except Obstacle (Ref × Verdict)).map (fun e => e.2.outcome) =
        (d.verdict catalog (some entry.2)).map Verdict.outcome := by
    cases d.verdict catalog (some entry.2) <;> rfl
  unfold outcomes verifyAll
  rw [map_mapM, map_mapM, lines_renumber]
  refine mapM_map_eq fun entry hentry => ?_
  have hr : entry.2 ∈ d.refs := List.mem_map_of_mem (List.mem_filter.1 hentry).1
  rw [hverdict d entry, ← verdict_renumber hinj hholes hrules hcites hr]
  exact hverdict (d.renumber f) (entry.1, entry.2.renumber f)

/-! ## Verification ends -/

theorem eq_error_of_kindOf {checked : Except Obstacle (Option VerificationError)} {e : Obstacle}
    (h : kindOf checked = .error e) : checked = .error e := by
  cases checked with
  | error e' => exact congrArg Except.error (Except.error.inj h)
  | ok error => cases h

/-- The check of a step has no result only if its rule has none for the cited formulas. -/
theorem applies_of_verifyStep_eq_error {content : Step} {conclusion : Formula} {rule : Rule}
    {e : Obstacle} (h : d.verifyStep r content conclusion rule = .error e) :
    ∃ premises e', d.citedFormulas? content = some premises ∧
      rule.applies conclusion premises = .error e' ∧ e = .matching e' := by
  have hkind := kindOf_verifyStep d r content conclusion rule
  rw [h] at hkind
  split at hkind
  · cases hkind
  · split at hkind
    · cases hkind
    · cases hcited : d.citedFormulas? content with
      | none =>
          rw [hcited] at hkind
          cases hkind
      | some premises =>
          rw [hcited, Option.elim_some] at hkind
          cases happlies : rule.applies conclusion premises with
          | ok answer =>
              rw [happlies] at hkind
              cases hkind
          | error e' =>
              rw [happlies] at hkind
              exact ⟨premises, e', rfl, happlies, Except.error.inj hkind⟩

/-- Verification of a line has no result only if the line is a step that cites a list or a record as
    its rule, or a rule that has none for the cited formulas. -/
theorem verifyLine_eq_error {line : Option Ref} {e : Obstacle}
    (h : d.verifyLine catalog line = .error e) :
    ∃ id content conclusion, line = some (.step id) ∧ d.step? (.step id) = some content ∧
      d.formulaOf (.step id) = some conclusion ∧
      (content.rule.isCollection = true ∧ e = .notAKey content.rule ∨
        ∃ rule premises e', catalog.cited? content.rule = .ok (some rule) ∧
          d.citedFormulas? content = some premises ∧
          rule.applies conclusion premises = .error e' ∧ e = .matching e') := by
  rcases line with _ | id | id | id
  · cases h
  · cases h
  · cases hcontent : d.step? (.step id) with
    | none =>
        unfold verifyLine at h
        dsimp only at h
        rw [hcontent] at h
        cases h
    | some content =>
        have hkind := kindOf_verifyLine_step catalog hcontent
        rw [h] at hkind
        cases hconclusion : content.conclusion with
        | none =>
            rw [hconclusion] at hkind
            cases hkind
        | some conclusion =>
            have hformula : d.formulaOf (.step id) = some conclusion := by
              rw [formulaOf, hcontent]
              exact hconclusion
            refine ⟨id, content, conclusion, rfl, hcontent, hformula, ?_⟩
            rw [hconclusion, Option.elim_some] at hkind
            split at hkind
            · cases hkind
            · cases hcited : catalog.cited? content.rule with
              | error e' =>
                  rw [hcited] at hkind
                  obtain rfl : e = e' := Except.error.inj hkind
                  exact .inl (Catalog.isCollection_of_cited?_eq_error hcited)
              | ok found =>
                  rw [hcited] at hkind
                  cases found with
                  | none => cases hkind
                  | some rule =>
                      have hstep : d.verifyStep (.step id) content conclusion rule = .error e :=
                        eq_error_of_kindOf hkind.symm
                      obtain ⟨premises, e', hrest⟩ := applies_of_verifyStep_eq_error hstep
                      exact .inr ⟨rule, premises, e', rfl, hrest⟩
  · cases h

include hholes hrules in
theorem exists_verifyLine_eq_ok
    (hnames : ∀ r content, d.step? r = some content → content.rule.isCollection = false) (r : Ref) :
    ∃ error, d.verifyLine catalog (some r) = .ok error := by
  cases hline : d.verifyLine catalog (some r) with
  | ok error => exact ⟨error, rfl⟩
  | error e =>
      obtain ⟨id, content, conclusion, -, hcontent, hformula, hcases⟩ := verifyLine_eq_error hline
      rcases hcases with ⟨hcollection, -⟩ | ⟨rule, premises, e', hcited, hpremises, happlies, -⟩
      · rw [hnames _ content hcontent] at hcollection
        cases hcollection
      · have hrule := hrules rule (Catalog.mem_rules_of_cited? hcited)
        have hdecides := hrule.decides (hasHoles_of_cited hholes hpremises)
          (hholes _ conclusion hformula)
        obtain ⟨answer, hanswer, -⟩ := hdecides.exists_applies_eq_ok
        rw [happlies] at hanswer
        cases hanswer

include hholes hrules in
/-- Every line gets a verdict, if no list or record is cited as a rule. -/
theorem exists_verifyAll_eq_ok
    (hnames : ∀ r content, d.step? r = some content → content.rule.isCollection = false) :
    ∃ verdicts, d.verifyAll catalog = .ok verdicts := by
  have hverdict : ∀ r, ∃ v, d.verdict catalog (some r) = .ok v := by
    intro r
    obtain ⟨error, herror⟩ := exists_verifyLine_eq_ok hholes hrules hnames r
    unfold verdict
    rw [herror]
    dsimp only
    split
    · exact ⟨_, rfl⟩
    · exact ⟨_, rfl⟩
  have hentry : ∀ entry ∈ d.lines, ∃ judged, (do
      let verdict ← d.verdict catalog (some entry.2)
      return (entry.2, verdict)) = Except.ok judged ∧ judged.1.isLine = true := by
    intro entry hmem
    obtain ⟨v, hv⟩ := hverdict entry.2
    exact ⟨(entry.2, v), bind_eq_ok.2 ⟨v, hv, rfl⟩, (List.mem_filter.1 hmem).2⟩
  obtain ⟨verdicts, hverdicts, -⟩ := exists_mapM_eq_ok hentry
  exact ⟨verdicts, hverdicts⟩

/-- A derivation whose formulas were read from texts and whose steps cite lines and subproofs that
    are there can be loaded again after it was saved. Then every line gets a verdict of the same
    status as before, with an error of the same kind. There are verdicts on all lines, if no list or
    record is cited as a rule. -/
theorem reload_keeps_verdicts {d : Derivation} (hd : Reachable d)
    (hparsed : ∀ r g, d.formulaOf r = some g → ∃ text, Formula.parse text = .ok g)
    (hcites : ∀ r content, d.step? r = some content →
      (∀ dep ∈ content.lineDeps, dep.isLine = true ∧ d.contains dep = true) ∧
        ∀ dep ∈ content.subproofDeps, dep.isSubproof = true ∧ d.contains dep = true) :
    ∃ d', Document.loadValue d.toValue = .ok d' ∧
      d'.outcomes .builtin = d.outcomes .builtin ∧
      ((∀ r content, d.step? r = some content → content.rule.isCollection = false) →
        ∃ verdicts, d.verifyAll .builtin = .ok verdicts) := by
  have hwell := hd.wellFormed
  have hread : ∀ r g, d.formulaOf r = some g → g.Readable := by
    intro r g hg
    obtain ⟨text, htext⟩ := hparsed r g hg
    exact Formula.readable_of_parse htext
  have hholes : ∀ r g, d.formulaOf r = some g → g.hasHoles = false :=
    fun r g hg => (Formula.readable_iff.1 (hread r g hg)).1
  have hrules : ∀ rule ∈ Catalog.builtin.rules, rule.Uniform := fun _ => Equivalences.uniform
  have hamong : ∀ r content, d.step? r = some content → content.CitesAmong d.refs := by
    intro r content hcontent
    simpa only [Step.CitesAmong, contains_iff] using hcites r content hcontent
  refine ⟨d.renumber d.ordinal, ?_, ?_, exists_verifyAll_eq_ok hholes hrules⟩
  · refine (Document.loadValue_toValue hwell hread).2 ⟨fun s hs => ?_, rfl⟩
    exact hamong (.step s.1) s.2 ((step?_eq_some hwell.nodup_parts).2 hs)
  · exact outcomes_renumber hwell.enumerates.injOn hholes hrules hamong

/-- The premise with the greater number comes first in the document, so that loading changes the
    order in which the two premises reach the rule. -/
theorem reload_keeps_verdicts_reordered :
    let p := Formula.var "P"
    let q := Formula.var "Q"
    let r := Formula.var "R"
    let d := (Derivation.ofPremise (some (.or q r))).performAll [
      .addPremiseBeside (some p) (.premise 1) false,
      .addSubproof none true,
      .addStep ⟨some (.or (.and p q) (.and p r)), .text "DISTRIBUTION", [.premise 1, .premise 2],
        []⟩ (some (.subproof 3)),
      .addStep ⟨some (.neg (.neg p)), .text "DOUBLE_NEGATION", [.step 4], []⟩ none,
      .addStep .blank none]
    d.refs = [.premise 2, .premise 1, .subproof 3, .step 4, .step 5, .step 6] ∧
      ∃ d', Document.loadValue d.toValue = .ok d' ∧ d'.outcomes .builtin = .ok [
        (.valid, none), (.valid, none), (.valid, none), (.invalid, some .badDependency),
        (.unverified, none)] := by
  intro p q r d
  have hd : Reachable d := (Reachable.ofPremise _).performAll _
  have hparsed : ∀ x ∈ d.refs, ∀ g ∈ (d.formulaOf x).toList, Formula.parse g.render = .ok g := by
    decide +kernel
  have hcites : ∀ x ∈ d.refs, ∀ content ∈ (d.step? x).toList,
      (∀ dep ∈ content.lineDeps, dep.isLine = true ∧ d.contains dep = true) ∧
        ∀ dep ∈ content.subproofDeps, dep.isSubproof = true ∧ d.contains dep = true := by
    decide
  obtain ⟨d', hload, hsame, -⟩ := reload_keeps_verdicts hd
    (fun x g hg => ⟨_, hparsed x (mem_refs_of_formulaOf hg) g (Option.mem_toList.2 hg)⟩)
    (fun x content h => hcites x (mem_refs_of_step? h) content (Option.mem_toList.2 h))
  refine ⟨by decide, d', hload, ?_⟩
  rw [hsame]
  cbv

end Derivation

end Deduction
