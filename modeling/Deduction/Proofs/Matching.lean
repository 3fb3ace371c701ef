import Deduction.Pattern.Match
import Deduction.Proofs.Abstraction
import Deduction.Proofs.Assoc
import Deduction.Proofs.Outcome

set_option autoImplicit false

/-! # What matching finds

The bindings that matching finds turn every pattern into its candidate. Comparing shapes leaves a
state behind that demands something of the final bindings: to extend the ones found so far, and to
turn each occurrence that was put off into the formula at its place. `MatchState.Solves` says that
bindings meet these demands, and every step of the comparison only adds to them. Settling then meets
the demands one by one, and never takes back a binding. -/

namespace Deduction

namespace Formula

/-! ## Instances -/

theorem instantiateList_cons {b : Bindings} {a : Formula} {as values : List Formula} :
    instantiateList b (a :: as) = .ok values ↔
      ∃ f fs, a.instantiate b = .ok f ∧ instantiateList b as = .ok fs ∧ values = f :: fs := by
  simp only [instantiateList, bind_eq_ok, pure_eq_ok]
  constructor
  · rintro ⟨f, hf, fs, hfs, rfl⟩
    exact ⟨f, fs, hf, hfs, rfl⟩
  · rintro ⟨f, fs, hf, hfs, rfl⟩
    exact ⟨f, hf, fs, hfs, rfl⟩

theorem length_instantiateList {b : Bindings} :
    ∀ {as values : List Formula}, instantiateList b as = .ok values → values.length = as.length
  | [], values, h => by
      simp only [instantiateList, Except.ok.injEq] at h
      rw [← h]
  | a :: as, values, h => by
      obtain ⟨f, fs, -, hfs, rfl⟩ := instantiateList_cons.1 h
      rw [List.length_cons, List.length_cons, length_instantiateList hfs]

/-- The two ways in which an application has an instance. -/
theorem instantiate_app_eq_ok {b : Bindings} {name : String} {args : List Formula} {f : Formula} :
    (Formula.app name args).instantiate b = .ok f ↔
      (args = [] ∧ b.get? name = some (.formula f)) ∨
        ∃ c values, args ≠ [] ∧ b.get? name = some (.context c) ∧ c.arity = args.length ∧
          instantiateList b args = .ok values ∧ c.fill values = .ok f := by
  simp only [instantiate]
  cases hname : b.get? name with
  | none => simp
  | some bound =>
      cases bound with
      | formula g => by_cases hargs : args = [] <;> simp [hargs]
      | context c =>
          by_cases hargs : args = []
          · simp [hargs]
          · by_cases harity : c.arity = args.length
            · simp [hargs, harity, bind_eq_ok, mapError_eq_ok]
            · simp [hargs, harity]

theorem instantiate_neg_eq_ok {b : Bindings} {p g : Formula} :
    (Formula.neg p).instantiate b = .ok g ↔ ∃ f, p.instantiate b = .ok f ∧ .neg f = g := by
  simp only [instantiate, bind_eq_ok, pure_eq_ok]

theorem instantiate_binary_eq_ok {b : Bindings} {op : Connective} {p q g : Formula} :
    (Formula.binary op p q).instantiate b = .ok g ↔
      ∃ f, p.instantiate b = .ok f ∧ ∃ f', q.instantiate b = .ok f' ∧ .binary op f f' = g := by
  simp only [instantiate, bind_eq_ok, pure_eq_ok]

theorem instantiate_quant_eq_ok {b : Bindings} {q : Quantifier} {name : String} {p g : Formula} :
    (Formula.quant q name p).instantiate b = .ok g ↔
      ∃ f, p.instantiate b = .ok f ∧ .quant q name f = g := by
  simp only [instantiate, bind_eq_ok, pure_eq_ok]

theorem instantiateList_mono {b b' : Bindings} :
    ∀ {as values : List Formula},
      (∀ a ∈ as, ∀ f, a.instantiate b = .ok f → a.instantiate b' = .ok f) →
      instantiateList b as = .ok values → instantiateList b' as = .ok values
  | [], _, _, hvalues => hvalues
  | a :: as, _, h, hvalues => by
      obtain ⟨f, fs, hf, hfs, rfl⟩ := instantiateList_cons.1 hvalues
      have htail := instantiateList_mono (fun a' ha' => h a' (List.mem_cons_of_mem a ha')) hfs
      exact instantiateList_cons.2 ⟨f, fs, h a (List.mem_cons_self ..) f hf, htail, rfl⟩

/-- Bindings that keep what the names of a pattern are bound to give the same instance. -/
theorem instantiate_of_agree {b b' : Bindings} {p f : Formula}
    (h : ∀ name args bound, .app name args ∈ p.subformulas → b.get? name = some bound →
      b'.get? name = some bound)
    (hp : p.instantiate b = .ok f) : p.instantiate b' = .ok f := by
  induction p generalizing f with
  | top => exact hp
  | bottom => exact hp
  | app name args ih =>
      have hself : Formula.app name args ∈ (Formula.app name args).subformulas :=
        List.mem_cons_self ..
      rcases instantiate_app_eq_ok.1 hp with
        ⟨hargs, hname⟩ | ⟨c, values, hargs, hname, harity, hv, hfill⟩
      · exact instantiate_app_eq_ok.2 (Or.inl ⟨hargs, h name args _ hself hname⟩)
      · have hv' : instantiateList b' args = .ok values := by
          refine instantiateList_mono (fun a ha f hf => ih a ha (fun n as bound hmem => ?_) hf) hv
          refine h n as bound (List.mem_cons_of_mem _ ?_)
          rw [subformulasList_eq]
          exact List.mem_flatMap.2 ⟨a, ha, hmem⟩
        exact instantiate_app_eq_ok.2
          (Or.inr ⟨c, values, hargs, h name args _ hself hname, harity, hv', hfill⟩)
  | neg p ih =>
      obtain ⟨g, hg, rfl⟩ := instantiate_neg_eq_ok.1 hp
      have hinst := ih (fun n as bound hmem => h n as bound (List.mem_cons_of_mem _ hmem)) hg
      exact instantiate_neg_eq_ok.2 ⟨g, hinst, rfl⟩
  | binary op p q ihp ihq =>
      obtain ⟨g, hg, g', hg', rfl⟩ := instantiate_binary_eq_ok.1 hp
      have hleft := ihp (fun n as bound hmem => h n as bound
        (List.mem_cons_of_mem _ (List.mem_append_left _ hmem))) hg
      have hright := ihq (fun n as bound hmem => h n as bound
        (List.mem_cons_of_mem _ (List.mem_append_right _ hmem))) hg'
      exact instantiate_binary_eq_ok.2 ⟨g, hleft, g', hright, rfl⟩
  | quant q name p ih =>
      obtain ⟨g, hg, rfl⟩ := instantiate_quant_eq_ok.1 hp
      have hinst := ih (fun n as bound hmem => h n as bound (List.mem_cons_of_mem _ hmem)) hg
      exact instantiate_quant_eq_ok.2 ⟨g, hinst, rfl⟩
  | hole i => exact hp

/-- Larger bindings give the same instances. -/
theorem instantiate_mono {b b' : Bindings} (h : b.Extends b') {p f : Formula}
    (hp : p.instantiate b = .ok f) : p.instantiate b' = .ok f :=
  instantiate_of_agree (fun name _ bound _ => h name bound) hp

end Formula

/-! ## Comparing shapes -/

/-- The occurrence as a pattern. -/
def Deferred.pattern (d : Deferred) : Formula := .app d.name d.args

/-- Occurrences are put off only when they have arguments, and stand for formulas without holes. -/
def Deferred.WellFormed (d : Deferred) : Prop := d.args ≠ [] ∧ d.candidate.hasHoles = false

/-- The bindings meet all that the state demands. -/
def MatchState.Solves (s : MatchState) (b : Bindings) : Prop :=
  s.bindings.Extends b ∧ ∀ d ∈ s.deferred, d.pattern.instantiate b = .ok d.candidate

/-- What a comparison does at an occurrence of a name. -/
theorem Formula.matchShape_app {name : String} {args : List Formula} {f : Formula}
    {s s' : MatchState} (h : (Formula.app name args).matchShape f s = some s') :
    (args = [] ∧ s.bindings.get? name = none ∧
      s' = { s with bindings := s.bindings.put name (.formula f) }) ∨
    (args = [] ∧ s.bindings.get? name = some (.formula f) ∧ s' = s) ∨
    (args ≠ [] ∧ s' = s.defer ⟨name, args, f⟩) := by
  simp only [matchShape] at h
  split at h
  · next hargs =>
      have hargs := List.isEmpty_iff.1 hargs
      unfold MatchState.bind at h
      split at h
      · next hnone => exact .inl ⟨hargs, hnone, (Option.some.inj h).symm⟩
      · next bound hbound =>
          split at h
          · next heq => exact .inr (.inl ⟨hargs, heq ▸ hbound, (Option.some.inj h).symm⟩)
          · exact absurd h (by simp)
  · next hargs =>
      exact .inr (.inr ⟨fun he => hargs (List.isEmpty_iff.2 he), (Option.some.inj h).symm⟩)

theorem Formula.solves_of_matchShape_app {name : String} {args : List Formula} {f : Formula}
    {s s' : MatchState} {b : Bindings} (h : (Formula.app name args).matchShape f s = some s')
    (hb : s'.Solves b) : s.Solves b ∧ (Formula.app name args).instantiate b = .ok f := by
  obtain ⟨hext, hdeferred⟩ := hb
  rcases matchShape_app h with ⟨rfl, hnone, rfl⟩ | ⟨rfl, hbound, rfl⟩ | ⟨_, rfl⟩
  · have hname : b.get? name = some (.formula f) := hext name _ (Assoc.get?_put_self _ name _)
    refine ⟨⟨(Assoc.extends_put hnone _).trans hext, hdeferred⟩, ?_⟩
    exact instantiate_app_eq_ok.2 (Or.inl ⟨rfl, hname⟩)
  · refine ⟨⟨hext, hdeferred⟩, ?_⟩
    exact instantiate_app_eq_ok.2 (Or.inl ⟨rfl, hext name _ hbound⟩)
  · refine ⟨⟨hext, fun d hd => hdeferred d (List.mem_append_left _ hd)⟩, ?_⟩
    exact hdeferred ⟨name, args, f⟩ (List.mem_append_right _ (List.mem_singleton.2 rfl))

/-- A comparison adds to the demands that the bindings turn the pattern into the candidate. -/
theorem Formula.solves_of_matchShape {p f : Formula} {s s' : MatchState} {b : Bindings}
    (h : p.matchShape f s = some s') (hb : s'.Solves b) :
    s.Solves b ∧ p.instantiate b = .ok f := by
  induction p generalizing f s s' with
  | top =>
      cases f <;> simp only [matchShape, Option.some.injEq, reduceCtorEq] at h
      subst h
      exact ⟨hb, rfl⟩
  | bottom =>
      cases f <;> simp only [matchShape, Option.some.injEq, reduceCtorEq] at h
      subst h
      exact ⟨hb, rfl⟩
  | app name args ih => exact solves_of_matchShape_app h hb
  | neg p ih =>
      cases f <;> simp only [matchShape, reduceCtorEq] at h
      obtain ⟨hs, hp⟩ := ih h hb
      exact ⟨hs, instantiate_neg_eq_ok.2 ⟨_, hp, rfl⟩⟩
  | binary op p q ihp ihq =>
      cases f <;> simp only [matchShape, reduceCtorEq] at h
      split at h
      · next hop =>
          obtain ⟨s₁, hs₁, hs'⟩ := Option.bind_eq_some_iff.1 h
          obtain ⟨hb₁, hq⟩ := ihq hs' hb
          obtain ⟨hs, hp⟩ := ihp hs₁ hb₁
          subst hop
          exact ⟨hs, instantiate_binary_eq_ok.2 ⟨_, hp, _, hq, rfl⟩⟩
      · exact absurd h (by simp)
  | quant q name p ih =>
      cases f <;> simp only [matchShape, reduceCtorEq] at h
      split at h
      · next hsame =>
          obtain ⟨hs, hp⟩ := ih h hb
          obtain ⟨rfl, rfl⟩ := hsame
          exact ⟨hs, instantiate_quant_eq_ok.2 ⟨_, hp, rfl⟩⟩
      · exact absurd h (by simp)
  | hole i =>
      cases f <;> simp only [matchShape, reduceCtorEq] at h
      split at h
      · next hij =>
          obtain rfl := Option.some.inj h
          subst hij
          exact ⟨hb, rfl⟩
      · exact absurd h (by simp)

/-- At an occurrence of a name the comparison goes on as any bindings that meet the demands and give
    the candidate say: a name alone has the candidate as its binding there, or can get it. -/
theorem Formula.exists_matchShape_app {name : String} {args : List Formula} {f : Formula}
    {s : MatchState} {b : Bindings} (hs : s.Solves b)
    (h : (Formula.app name args).instantiate b = .ok f) :
    ∃ s', (Formula.app name args).matchShape f s = some s' ∧ s'.Solves b := by
  obtain ⟨hext, hdeferred⟩ := hs
  rcases instantiate_app_eq_ok.1 h with ⟨rfl, hname⟩ | ⟨c, values, hargs, -⟩
  · show ∃ s', s.bind name f = some s' ∧ s'.Solves b
    unfold MatchState.bind
    cases hbound : s.bindings.get? name with
    | none => exact ⟨_, rfl, hext.put hname, hdeferred⟩
    | some bound =>
        have hsame : bound = .formula f :=
          Option.some.inj ((hext name bound hbound).symm.trans hname)
        exact ⟨s, by simp [hsame], hext, hdeferred⟩
  · refine ⟨s.defer ⟨name, args, f⟩, by simp [matchShape, hargs], hext, ?_⟩
    intro d hd
    rcases List.mem_append.1 hd with hd | hd
    · exact hdeferred d hd
    · rw [List.mem_singleton.1 hd]
      exact h

/-- Conversely, a pattern is found in its instance under any bindings that meet the demands, and
    these bindings meet what the comparison adds to them. -/
theorem Formula.exists_matchShape_of_instantiate {p f : Formula} {s : MatchState} {b : Bindings}
    (hs : s.Solves b) (h : p.instantiate b = .ok f) :
    ∃ s', p.matchShape f s = some s' ∧ s'.Solves b := by
  induction p generalizing f s with
  | top =>
      obtain rfl := Except.ok.inj h
      exact ⟨s, rfl, hs⟩
  | bottom =>
      obtain rfl := Except.ok.inj h
      exact ⟨s, rfl, hs⟩
  | app name args ih => exact exists_matchShape_app hs h
  | neg p ih =>
      obtain ⟨g, hg, rfl⟩ := instantiate_neg_eq_ok.1 h
      exact ih hs hg
  | binary op p q ihp ihq =>
      obtain ⟨g, hg, g', hg', rfl⟩ := instantiate_binary_eq_ok.1 h
      obtain ⟨s₁, hs₁, hsolves₁⟩ := ihp hs hg
      obtain ⟨s', hs', hsolves'⟩ := ihq hsolves₁ hg'
      refine ⟨s', ?_, hsolves'⟩
      rw [matchShape, if_pos rfl, hs₁]
      exact hs'
  | quant q name p ih =>
      obtain ⟨g, hg, rfl⟩ := instantiate_quant_eq_ok.1 h
      obtain ⟨s', hs', hsolves'⟩ := ih hs hg
      refine ⟨s', ?_, hsolves'⟩
      rw [matchShape, if_pos ⟨rfl, rfl⟩]
      exact hs'
  | hole i =>
      obtain rfl := Except.ok.inj h
      exact ⟨s, by simp [matchShape], hs⟩

/-- A comparison keeps whatever it keeps at each occurrence of a name. -/
theorem Formula.matchShape_preserves {Inv : MatchState → Prop} {p f : Formula} {s s' : MatchState}
    (hstep : ∀ name args g s s', .app name args ∈ p.subformulas → g.hasHoles = false →
      (Formula.app name args).matchShape g s = some s' → Inv s → Inv s')
    (h : p.matchShape f s = some s') (hf : f.hasHoles = false) (hs : Inv s) : Inv s' := by
  induction p generalizing f s s' with
  | top =>
      cases f <;> simp only [matchShape, Option.some.injEq, reduceCtorEq] at h
      exact h ▸ hs
  | bottom =>
      cases f <;> simp only [matchShape, Option.some.injEq, reduceCtorEq] at h
      exact h ▸ hs
  | app name args ih => exact hstep name args f s s' (List.mem_cons_self ..) hf h hs
  | neg p ih =>
      cases f <;> simp only [matchShape, reduceCtorEq] at h
      refine ih (fun name args g s s' hmem => ?_) h (by simpa using hf) hs
      exact hstep name args g s s' (List.mem_cons_of_mem _ hmem)
  | binary op p q ihp ihq =>
      cases f <;> simp only [matchShape, reduceCtorEq] at h
      simp only [hasHoles_binary, Bool.or_eq_false_iff] at hf
      split at h
      · obtain ⟨s₁, hs₁, hs'⟩ := Option.bind_eq_some_iff.1 h
        have hleft : Inv s₁ := ihp (fun name args g s s' hmem => hstep name args g s s'
          (List.mem_cons_of_mem _ (List.mem_append_left _ hmem))) hs₁ hf.1 hs
        exact ihq (fun name args g s s' hmem => hstep name args g s s'
          (List.mem_cons_of_mem _ (List.mem_append_right _ hmem))) hs' hf.2 hleft
      · exact absurd h (by simp)
  | quant q name p ih =>
      cases f <;> simp only [matchShape, reduceCtorEq] at h
      split at h
      · refine ih (fun name args g s s' hmem => ?_) h (by simpa using hf) hs
        exact hstep name args g s s' (List.mem_cons_of_mem _ hmem)
      · exact absurd h (by simp)
  | hole i => exact absurd h (by cases f <;> simp_all [matchShape])

/-- Several comparisons together. -/
theorem solves_of_matchShapes {pairs : List (Formula × Formula)} {s s' : MatchState} {b : Bindings}
    (h : matchShapes pairs s = some s') (hb : s'.Solves b) :
    s.Solves b ∧ ∀ pair ∈ pairs, pair.1.instantiate b = .ok pair.2 := by
  induction pairs generalizing s with
  | nil =>
      obtain rfl := Option.some.inj h
      exact ⟨hb, by simp⟩
  | cons pair pairs ih =>
      obtain ⟨s₁, hs₁, hs'⟩ := Option.bind_eq_some_iff.1 h
      obtain ⟨hb₁, hpairs⟩ := ih hs'
      obtain ⟨hs, hpair⟩ := Formula.solves_of_matchShape hs₁ hb₁
      refine ⟨hs, fun pair' hpair' => ?_⟩
      rcases List.mem_cons.1 hpair' with rfl | hpair'
      · exact hpair
      · exact hpairs pair' hpair'

theorem exists_matchShapes_of_instances {pairs : List (Formula × Formula)} {s : MatchState}
    {b : Bindings} (hs : s.Solves b) (h : ∀ pair ∈ pairs, pair.1.instantiate b = .ok pair.2) :
    ∃ s', matchShapes pairs s = some s' ∧ s'.Solves b := by
  induction pairs generalizing s with
  | nil => exact ⟨s, rfl, hs⟩
  | cons pair pairs ih =>
      obtain ⟨hinst, hinsts⟩ := List.forall_mem_cons.1 h
      obtain ⟨s₁, hs₁, hsolves₁⟩ := Formula.exists_matchShape_of_instantiate hs hinst
      obtain ⟨s', hs', hsolves'⟩ := ih hsolves₁ hinsts
      exact ⟨s', Option.bind_eq_some_iff.2 ⟨s₁, hs₁, hs'⟩, hsolves'⟩

theorem matchShapes_preserves (Inv : MatchState → Prop) {pairs : List (Formula × Formula)}
    {s s' : MatchState} (hpairs : ∀ pair ∈ pairs, pair.2.hasHoles = false)
    (hstep : ∀ pair ∈ pairs, ∀ name args g s s', .app name args ∈ pair.1.subformulas →
      g.hasHoles = false → (Formula.app name args).matchShape g s = some s' → Inv s → Inv s')
    (h : matchShapes pairs s = some s') (hs : Inv s) : Inv s' := by
  induction pairs generalizing s with
  | nil =>
      obtain rfl := Option.some.inj h
      exact hs
  | cons pair pairs ih =>
      obtain ⟨s₁, hs₁, hs'⟩ := Option.bind_eq_some_iff.1 h
      obtain ⟨hholes, hpairs⟩ := List.forall_mem_cons.1 hpairs
      obtain ⟨hfirst, hstep⟩ := List.forall_mem_cons.1 hstep
      exact ih hpairs hstep hs' (Formula.matchShape_preserves hfirst hs₁ hholes hs)

/-- What is put off stands in a pattern and is well-formed, if the candidates have no holes. -/
theorem deferred_of_matchShapes {pairs : List (Formula × Formula)} {b : Bindings} {s : MatchState}
    (hpairs : ∀ pair ∈ pairs, pair.2.hasHoles = false)
    (h : matchShapes pairs ⟨b, []⟩ = some s) :
    ∀ d ∈ s.deferred, d.WellFormed ∧ ∃ pair ∈ pairs, d.pattern ∈ pair.1.subformulas := by
  refine matchShapes_preserves (fun s => ∀ d ∈ s.deferred, d.WellFormed ∧
    ∃ pair ∈ pairs, d.pattern ∈ pair.1.subformulas) hpairs ?_ h (by simp)
  intro pair hpair name args g s s' hmem hg happ hs
  rcases Formula.matchShape_app happ with ⟨_, _, rfl⟩ | ⟨_, _, rfl⟩ | ⟨hargs, rfl⟩
  · exact hs
  · exact hs
  · intro d hd
    rcases List.mem_append.1 hd with hd | hd
    · exact hs d hd
    · obtain rfl := List.mem_singleton.1 hd
      exact ⟨⟨hargs, hg⟩, pair, hpair, hmem⟩

/-! ## Settling what was put off -/

theorem groundArgs_eq_some {b : Bindings} {args values : List Formula}
    (h : groundArgs b args = .ok (some values)) : Formula.instantiateList b args = .ok values := by
  unfold groundArgs at h
  split at h <;> simp_all

/-- What settling an occurrence does: its name gets a context, or the one that it has is filled to
    the formula at its place. -/
theorem Deferred.settle_eq_holds {d : Deferred} {b b' : Bindings}
    (h : d.settle b = .ok (.holds b')) :
    ∃ values, Formula.instantiateList b d.args = .ok values ∧
      ((b.get? d.name = none ∧ b' = b.put d.name (.context (.ofTargets d.candidate values))) ∨
        ∃ c, b.get? d.name = some (.context c) ∧ c.arity = values.length ∧
          c.fill values = .ok d.candidate ∧ b' = b) := by
  unfold Deferred.settle at h
  obtain ⟨found, hfound, h⟩ := bind_eq_ok.1 h
  cases found with
  | none => exact absurd h (by simp [pure, Except.pure])
  | some values =>
      refine ⟨values, groundArgs_eq_some hfound, ?_⟩
      simp only at h
      split at h
      · next hnone => exact .inl ⟨hnone, by simpa [pure, Except.pure] using h.symm⟩
      · exact absurd h (by simp [pure, Except.pure])
      · next c hc =>
          split at h
          · exact absurd h (by simp [pure, Except.pure])
          · next harity =>
              split at h
              · next f hfill =>
                  have hsettled : (if f = d.candidate then Settled.holds b else .fails) = .holds b' :=
                    pure_eq_ok.1 h
                  split at hsettled
                  · next hf =>
                      exact .inr ⟨c, hc, not_not.1 harity, hf ▸ hfill, by simpa using hsettled.symm⟩
                  · exact absurd hsettled (by simp)
              · exact absurd h (by simp [pure, Except.pure])
              · exact absurd h (by simp)

/-- A settled occurrence gives its formula, and whatever was bound stays bound. A name that gets its
    context here was unbound, so its arguments do not contain it and keep their instances. -/
theorem Deferred.instantiate_of_settle {d : Deferred} (hd : d.WellFormed) {b b' : Bindings}
    (h : d.settle b = .ok (.holds b')) :
    b.Extends b' ∧ d.pattern.instantiate b' = .ok d.candidate := by
  obtain ⟨values, hvalues, ⟨hnone, rfl⟩ | ⟨c, hc, harity, hfill, rfl⟩⟩ := Deferred.settle_eq_holds h
  · -- the new context was made so that the arguments fill it to the formula
    have hext := Assoc.extends_put hnone (.context (.ofTargets d.candidate values))
    refine ⟨hext, Formula.instantiate_app_eq_ok.2 (Or.inr ?_)⟩
    refine ⟨_, values, hd.1, Assoc.get?_put_self b d.name _, ?_, ?_, ?_⟩
    · simp only [Context.ofTargets, Formula.length_instantiateList hvalues]
    · exact Formula.instantiateList_mono (fun _ _ _ => Formula.instantiate_mono hext) hvalues
    · exact Context.fill_ofTargets hd.2 values
  · -- a context that was bound before has been filled and compared
    refine ⟨Assoc.Extends.refl b', Formula.instantiate_app_eq_ok.2 (Or.inr ?_)⟩
    refine ⟨c, values, hd.1, hc, ?_, hvalues, hfill⟩
    rw [harity, Formula.length_instantiateList hvalues]

/-- What a round is left with: bindings that extend the old ones, and occurrences that still wait.
    Any larger bindings that give the waiting ones their formulas give all of them theirs. -/
theorem settleRound_spec {b b' : Bindings} {ds waiting : List Deferred}
    (hds : ∀ d ∈ ds, d.WellFormed) (h : settleRound b ds = .ok (some (b', waiting))) :
    b.Extends b' ∧ (∀ d ∈ waiting, d ∈ ds) ∧
      ∀ b'', b'.Extends b'' → (∀ d ∈ waiting, d.pattern.instantiate b'' = .ok d.candidate) →
        ∀ d ∈ ds, d.pattern.instantiate b'' = .ok d.candidate := by
  induction ds generalizing b waiting with
  | nil =>
      obtain ⟨rfl, rfl⟩ : b = b' ∧ [] = waiting := by simpa [settleRound] using h
      exact ⟨Assoc.Extends.refl b, fun _ hd => hd, fun _ _ hw => hw⟩
  | cons d ds ih =>
      have hd := hds d (List.mem_cons_self ..)
      have hds' : ∀ e ∈ ds, e.WellFormed := fun e he => hds e (List.mem_cons_of_mem _ he)
      obtain ⟨settled, hsettle, h⟩ := bind_eq_ok.1 h
      cases settled with
      | fails => exact absurd h (by simp [pure, Except.pure])
      | holds b₁ =>
          obtain ⟨hext₁, hinst⟩ := Deferred.instantiate_of_settle hd hsettle
          obtain ⟨hext, hsub, hall⟩ := ih hds' h
          refine ⟨hext₁.trans hext, fun e he => List.mem_cons_of_mem _ (hsub e he), ?_⟩
          intro b'' hb'' hw e he
          rcases List.mem_cons.1 he with rfl | he
          · exact Formula.instantiate_mono (hext.trans hb'') hinst
          · exact hall b'' hb'' hw e he
      | waits =>
          -- the occurrence is still among the waiting ones, about which nothing is to be shown
          obtain ⟨found, hfound, h⟩ := bind_eq_ok.1 h
          cases found with
          | none => exact absurd h (by simp [pure, Except.pure])
          | some result =>
              obtain ⟨b₁, waiting₁⟩ := result
              obtain ⟨rfl, rfl⟩ : b₁ = b' ∧ d :: waiting₁ = waiting := by
                simpa [pure, Except.pure] using h
              obtain ⟨hext, hsub, hall⟩ := ih hds' hfound
              refine ⟨hext, fun e he => ?_, fun b'' hb'' hw e he => ?_⟩
              · rcases List.mem_cons.1 he with rfl | he
                · exact List.mem_cons_self ..
                · exact List.mem_cons_of_mem _ (hsub e he)
              · rcases List.mem_cons.1 he with rfl | he
                · exact hw e (List.mem_cons_self ..)
                · exact hall b'' hb'' (fun e' he' => hw e' (List.mem_cons_of_mem _ he')) e he

theorem settleAll_spec {b b' : Bindings} {ds : List Deferred} (hds : ∀ d ∈ ds, d.WellFormed)
    (h : settleAll b ds = .ok (some b')) :
    b.Extends b' ∧ ∀ d ∈ ds, d.pattern.instantiate b' = .ok d.candidate := by
  fun_induction settleAll b ds with
  | case1 b ds hempty =>
      obtain rfl : b = b' := by simpa using h
      rw [List.isEmpty_iff.1 hempty]
      exact ⟨Assoc.Extends.refl b, by simp⟩
  | case2 => exact absurd h (by simp)
  | case3 => exact absurd h (by simp)
  | case4 b ds hempty b₁ waiting hround hlt ih =>
      obtain ⟨hext₁, hsub, hall⟩ := settleRound_spec hds hround
      obtain ⟨hext, hwaiting⟩ := ih (fun d hd => hds d (hsub d hd)) h
      exact ⟨hext₁.trans hext, hall b' hext hwaiting⟩
  | case5 => exact absurd h (by simp)

/-! ## Matching -/

/-- Matching keeps what was bound and turns every pattern into its candidate. -/
theorem matchAll_spec {pairs : List (Formula × Formula)} {b b' : Bindings}
    (hpairs : ∀ pair ∈ pairs, pair.2.hasHoles = false) (h : matchAll pairs b = .ok (some b')) :
    b.Extends b' ∧ ∀ pair ∈ pairs, pair.1.instantiate b' = .ok pair.2 := by
  unfold matchAll at h
  split at h
  · exact absurd h (by simp)
  · next s hs =>
      have hwell : ∀ d ∈ s.deferred, d.WellFormed :=
        fun d hd => (deferred_of_matchShapes hpairs hs d hd).1
      have hsolves : s.Solves b' := settleAll_spec hwell h
      obtain ⟨hb, hinst⟩ := solves_of_matchShapes hs hsolves
      exact ⟨hb.1, hinst⟩

end Deduction
