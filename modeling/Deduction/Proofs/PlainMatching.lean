import Deduction.Proofs.Matching

set_option autoImplicit false

/-! # Matching without applied names

A pattern in which no name has arguments is matched by comparing shapes alone: nothing is put off. A
name gets its binding at its first occurrence, and there is no choice in it: whatever bindings turn
the pattern into the candidate bind the name to the formula at that place. So matching finds bindings
whenever there are any, and none that the others do not contain. -/

namespace Deduction

namespace Formula

/-- Does a name with arguments occur in the formula? -/
def hasApplications (f : Formula) : Bool := f.subformulas.any isFunctional

theorem hasApplications_app_eq_false {name : String} {args : List Formula} :
    (Formula.app name args).hasApplications = false ↔ args = [] := by
  constructor
  · intro h
    simpa [isFunctional] using List.any_eq_false.1 h (.app name args) (List.mem_cons_self ..)
  · rintro rfl
    rfl

@[simp] theorem hasApplications_neg (f : Formula) :
    (Formula.neg f).hasApplications = f.hasApplications := by
  simp [hasApplications, subformulas, isFunctional]

@[simp] theorem hasApplications_binary (op : Connective) (l r : Formula) :
    (Formula.binary op l r).hasApplications = (l.hasApplications || r.hasApplications) := by
  simp [hasApplications, subformulas, isFunctional]

@[simp] theorem hasApplications_quant (q : Quantifier) (name : String) (body : Formula) :
    (Formula.quant q name body).hasApplications = body.hasApplications := by
  simp [hasApplications, subformulas, isFunctional]

/-! ## Comparing shapes -/

/-- A comparison with a plain pattern puts nothing off. -/
theorem deferred_of_matchShape {p f : Formula} (hp : p.hasApplications = false) {s s' : MatchState}
    (h : p.matchShape f s = some s') : s'.deferred = s.deferred := by
  induction p generalizing f s s' with
  | top =>
      cases f <;> simp only [matchShape, Option.some.injEq, reduceCtorEq] at h
      rw [h]
  | bottom =>
      cases f <;> simp only [matchShape, Option.some.injEq, reduceCtorEq] at h
      rw [h]
  | app name args ih =>
      obtain rfl := hasApplications_app_eq_false.1 hp
      rcases matchShape_app h with ⟨-, -, rfl⟩ | ⟨-, -, rfl⟩ | ⟨hargs, -⟩
      · rfl
      · rfl
      · exact absurd rfl hargs
  | neg p ih =>
      cases f <;> simp only [matchShape, reduceCtorEq] at h
      exact ih (by simpa using hp) h
  | binary op p q ihp ihq =>
      simp only [hasApplications_binary, Bool.or_eq_false_iff] at hp
      cases f <;> simp only [matchShape, reduceCtorEq] at h
      split at h
      · obtain ⟨s₁, hs₁, hs'⟩ := Option.bind_eq_some_iff.1 h
        rw [ihq hp.2 hs', ihp hp.1 hs₁]
      · exact absurd h (by simp)
  | quant q name p ih =>
      cases f <;> simp only [matchShape, reduceCtorEq] at h
      split at h
      · exact ih (by simpa using hp) h
      · exact absurd h (by simp)
  | hole i =>
      cases f <;> simp only [matchShape, reduceCtorEq] at h
      split at h
      · rw [Option.some.inj h]
      · exact absurd h (by simp)

end Formula

/-! ## Matching -/

section

variable {pairs : List (Formula × Formula)}
  (hplain : ∀ pair ∈ pairs, pair.1.hasApplications = false)

include hplain

theorem deferred_of_matchShapes_plain {s s' : MatchState} (h : matchShapes pairs s = some s') :
    s'.deferred = s.deferred := by
  induction pairs generalizing s with
  | nil => rw [Option.some.inj h]
  | cons pair pairs ih =>
      obtain ⟨hpair, hpairs⟩ := List.forall_mem_cons.1 hplain
      obtain ⟨s₁, hs₁, hs'⟩ := Option.bind_eq_some_iff.1 h
      rw [ih hpairs hs', Formula.deferred_of_matchShape hpair hs₁]

/-- Matching plain patterns is comparing their shapes. In particular it does not fail for good. -/
theorem matchAll_of_plain (b : Bindings) :
    matchAll pairs b = .ok ((matchShapes pairs ⟨b, []⟩).map MatchState.bindings) := by
  unfold matchAll
  cases hs : matchShapes pairs ⟨b, []⟩ with
  | none => rfl
  | some s =>
      have hnone : s.deferred = [] := deferred_of_matchShapes_plain hplain hs
      dsimp only
      rw [hnone, settleAll]
      rfl

/-- What matching finds turns each plain pattern into its candidate, whether or not that has holes. -/
theorem instances_of_matchAll {b b' : Bindings} (h : matchAll pairs b = .ok (some b')) :
    b.Extends b' ∧ ∀ pair ∈ pairs, pair.1.instantiate b' = .ok pair.2 := by
  rw [matchAll_of_plain hplain] at h
  obtain ⟨s, hs, rfl⟩ := Option.map_eq_some_iff.1 (Except.ok.inj h)
  have hnone : s.deferred = [] := deferred_of_matchShapes_plain hplain hs
  have hsolves : s.Solves s.bindings := ⟨Assoc.Extends.refl _, by simp [hnone]⟩
  obtain ⟨hb, hinst⟩ := solves_of_matchShapes hs hsolves
  exact ⟨hb.1, hinst⟩

/-- Matching plain patterns finds bindings if there are any, and no more than these contain. -/
theorem exists_matchAll_of_instances {b b' : Bindings} (hb : b.Extends b')
    (h : ∀ pair ∈ pairs, pair.1.instantiate b' = .ok pair.2) :
    ∃ found, matchAll pairs b = .ok (some found) ∧ found.Extends b' := by
  have hstart : MatchState.Solves ⟨b, []⟩ b' := ⟨hb, by simp⟩
  obtain ⟨s, hs, hsolves⟩ := exists_matchShapes_of_instances hstart h
  exact ⟨s.bindings, by rw [matchAll_of_plain hplain, hs]; rfl, hsolves.1⟩

end

/-- Matching a plain pattern always has a result. It finds bindings exactly if some extension of the
    given ones turns the pattern into the candidate, and what it finds is the least such extension:
    it is one, and every other one contains it. -/
theorem matchOne_least {p : Formula} (hp : p.hasApplications = false) (f : Formula)
    (b : Bindings) :
    ∃ found, matchOne p f b = .ok found ∧
      (found.isSome = true ↔ ∃ b', b.Extends b' ∧ p.instantiate b' = .ok f) ∧
      ∀ least, found = some least → b.Extends least ∧ p.instantiate least = .ok f ∧
        ∀ b', b.Extends b' → p.instantiate b' = .ok f → least.Extends b' := by
  have hplain : ∀ pair ∈ [(p, f)], pair.1.hasApplications = false := by simpa using hp
  obtain ⟨found, hfound⟩ : ∃ found, matchOne p f b = .ok found := ⟨_, matchAll_of_plain hplain b⟩
  have hsound : ∀ least, found = some least → b.Extends least ∧ p.instantiate least = .ok f := by
    rintro least rfl
    obtain ⟨hext, hinst⟩ := instances_of_matchAll hplain hfound
    exact ⟨hext, hinst _ (List.mem_singleton_self _)⟩
  have hcomplete : ∀ b', b.Extends b' → p.instantiate b' = .ok f →
      ∃ least, found = some least ∧ least.Extends b' := by
    intro b' hb' hinst
    obtain ⟨least, hleast, hext⟩ := exists_matchAll_of_instances hplain hb' (by simpa using hinst)
    exact ⟨least, Except.ok.inj (hfound.symm.trans hleast), hext⟩
  refine ⟨found, hfound, ⟨fun hsome => ?_, ?_⟩, fun least hleast => ?_⟩
  · obtain ⟨least, hleast⟩ := Option.isSome_iff_exists.1 hsome
    exact ⟨least, hsound least hleast⟩
  · rintro ⟨b', hb', hinst⟩
    obtain ⟨least, hleast, -⟩ := hcomplete b' hb' hinst
    exact Option.isSome_iff_exists.2 ⟨least, hleast⟩
  · refine ⟨(hsound least hleast).1, (hsound least hleast).2, fun b' hb' hinst => ?_⟩
    obtain ⟨least', hleast', hext⟩ := hcomplete b' hb' hinst
    rwa [Option.some.inj (hleast.symm.trans hleast')]

/-- A repeated name, a quantifier, a hole, and a name that is bound to a context already: no
    extension makes that name alone stand for a formula. -/
theorem matchOne_least_repeated :
    let pattern := Formula.quant .all "x" (.implies (.var "phi") (.and (.var "phi") (.hole 0)))
    let candidate := Formula.quant .all "x" (.implies (.var "Q") (.and (.var "Q") (.hole 0)))
    let before : Bindings := [("S", .context ⟨1, .hole 0⟩)]
    let least : Bindings := [("S", .context ⟨1, .hole 0⟩), ("phi", .formula (.var "Q"))]
    pattern.hasApplications = false ∧ matchOne pattern candidate before = .ok (some least) ∧
      (∀ b', before.Extends b' → pattern.instantiate b' = .ok candidate → least.Extends b') ∧
      ¬ ∃ b', before.Extends b' ∧ (Formula.var "S").instantiate b' = .ok (.var "Q") := by
  intro pattern candidate before least
  have hpattern : pattern.hasApplications = false := by decide
  have hmatch : matchOne pattern candidate before = .ok (some least) := by decide +kernel
  refine ⟨hpattern, hmatch, ?_, fun hext => ?_⟩
  · obtain ⟨found, hfound, -, hleast⟩ := matchOne_least hpattern candidate before
    exact (hleast least (Except.ok.inj (hfound.symm.trans hmatch))).2.2
  · have hname : (Formula.var "S").hasApplications = false := by decide
    obtain ⟨found, hfound, hiff, -⟩ := matchOne_least hname (.var "Q") before
    have hnone : matchOne (.var "S") (.var "Q") before = .ok none := by decide +kernel
    have hsome := hiff.2 hext
    rw [Except.ok.inj (hfound.symm.trans hnone)] at hsome
    exact absurd hsome (by simp)

end Deduction
