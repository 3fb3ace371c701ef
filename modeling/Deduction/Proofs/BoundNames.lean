import Deduction.Proofs.Evaluation
import Deduction.Proofs.Matching

set_option autoImplicit false

/-! # What matching binds

Whatever holds of all bindings that occurrences of names can get, and of the bindings that matching
starts with, holds of the bindings that it ends with. In particular matching binds the names that
occur in its patterns and no others. -/

namespace Deduction

/-! ## Bindings that are good for their names -/

/-- Every name is bound to something that is good for it. -/
def Bindings.Obey (b : Bindings) (good : String → Binding → Prop) : Prop :=
  ∀ name bound, b.get? name = some bound → good name bound

/-- What an occurrence of a name in the pattern may get as its binding is good: alone a formula,
    with arguments a context that as many formulas were abstracted to. -/
structure Formula.Grants (p : Formula) (good : String → Binding → Prop) : Prop where
  formula : ∀ name f, .app name [] ∈ p.subformulas → f.hasHoles = false → good name (.formula f)
  context : ∀ name args f values, .app name args ∈ p.subformulas → args ≠ [] →
    f.hasHoles = false → values.length = args.length → good name (.context (.ofTargets f values))

/-- What settling the occurrence may bind its name to is good. -/
def Deferred.Grants (d : Deferred) (good : String → Binding → Prop) : Prop :=
  ∀ values, values.length = d.args.length → good d.name (.context (.ofTargets d.candidate values))

variable {good : String → Binding → Prop}

theorem Bindings.Obey.put {b : Bindings} (hb : b.Obey good) {name : String} {bound : Binding}
    (hbound : good name bound) : Bindings.Obey (b.put name bound) good := by
  intro other bound' h
  by_cases hname : name = other
  · subst hname
    rw [Assoc.get?_put_self] at h
    obtain rfl := Option.some.inj h
    exact hbound
  · rw [Assoc.get?_put_of_ne b hname] at h
    exact hb other bound' h

theorem Bindings.obey_of_matchShapes {pairs : List (Formula × Formula)} {s s' : MatchState}
    (hpairs : ∀ pair ∈ pairs, pair.2.hasHoles = false)
    (hgrants : ∀ pair ∈ pairs, pair.1.Grants good) (h : matchShapes pairs s = some s')
    (hs : s.bindings.Obey good) : s'.bindings.Obey good := by
  refine matchShapes_preserves (fun s => s.bindings.Obey good) hpairs ?_ h hs
  intro pair hpair name args f s s' hmem hf happ hs
  rcases Formula.matchShape_app happ with ⟨rfl, _, rfl⟩ | ⟨_, _, rfl⟩ | ⟨_, rfl⟩
  · exact hs.put ((hgrants pair hpair).formula name f hmem hf)
  · exact hs
  · exact hs

/-- What has been put off grants what the patterns grant. -/
theorem Deferred.grants_of_matchShapes {pairs : List (Formula × Formula)} {b : Bindings}
    {s : MatchState} (hpairs : ∀ pair ∈ pairs, pair.2.hasHoles = false)
    (hgrants : ∀ pair ∈ pairs, pair.1.Grants good) (h : matchShapes pairs ⟨b, []⟩ = some s) :
    ∀ d ∈ s.deferred, d.Grants good := by
  intro d hd values hvalues
  obtain ⟨⟨hargs, hholes⟩, pair, hpair, hmem⟩ := deferred_of_matchShapes hpairs h d hd
  exact (hgrants pair hpair).context d.name d.args d.candidate values hmem hargs hholes hvalues

namespace Bindings.Obey

variable {b b' : Bindings}

theorem settle {d : Deferred} (hb : b.Obey good) (hd : d.Grants good)
    (h : d.settle b = .ok (.holds b')) : b'.Obey good := by
  obtain ⟨values, hvalues, ⟨_, rfl⟩ | ⟨_, _, _, _, rfl⟩⟩ := Deferred.settle_eq_holds h
  · exact hb.put (hd values (Formula.length_instantiateList hvalues))
  · exact hb

/-- A round keeps bindings good, and whatever still waits was there before. -/
theorem settleRound {ds waiting : List Deferred} (hb : b.Obey good)
    (hds : ∀ d ∈ ds, d.Grants good) (h : settleRound b ds = .ok (some (b', waiting))) :
    b'.Obey good ∧ ∀ d ∈ waiting, d.Grants good := by
  induction ds generalizing b waiting with
  | nil =>
      obtain ⟨rfl, rfl⟩ : b = b' ∧ [] = waiting := by simpa [Deduction.settleRound] using h
      exact ⟨hb, by simp⟩
  | cons d ds ih =>
      obtain ⟨hd, hds⟩ := List.forall_mem_cons.1 hds
      obtain ⟨settled, hsettle, h⟩ := bind_eq_ok.1 h
      cases settled with
      | fails => exact absurd h (by simp [pure, Except.pure])
      | holds b₁ => exact ih (hb.settle hd hsettle) hds h
      | waits =>
          obtain ⟨found, hfound, h⟩ := bind_eq_ok.1 h
          cases found with
          | none => exact absurd h (by simp [pure, Except.pure])
          | some result =>
              obtain ⟨b₁, waiting₁⟩ := result
              obtain ⟨rfl, rfl⟩ : b₁ = b' ∧ d :: waiting₁ = waiting := by
                simpa [pure, Except.pure] using h
              obtain ⟨hb', hwaiting⟩ := ih hb hds hfound
              exact ⟨hb', List.forall_mem_cons.2 ⟨hd, hwaiting⟩⟩

theorem settleAll {ds : List Deferred} (hb : b.Obey good) (hds : ∀ d ∈ ds, d.Grants good)
    (h : settleAll b ds = .ok (some b')) : b'.Obey good := by
  fun_induction Deduction.settleAll b ds with
  | case1 b ds hempty =>
      obtain rfl : b = b' := by simpa using h
      exact hb
  | case2 => exact absurd h (by simp)
  | case3 => exact absurd h (by simp)
  | case4 b ds hempty b₁ waiting hround hlt ih =>
      obtain ⟨hb₁, hwaiting⟩ := hb.settleRound hds hround
      exact ih hb₁ hwaiting h
  | case5 => exact absurd h (by simp)

/-- Matching keeps bindings good. -/
theorem matchAll {pairs : List (Formula × Formula)} (hb : b.Obey good)
    (hpairs : ∀ pair ∈ pairs, pair.2.hasHoles = false)
    (hgrants : ∀ pair ∈ pairs, pair.1.Grants good) (h : matchAll pairs b = .ok (some b')) :
    b'.Obey good := by
  unfold Deduction.matchAll at h
  split at h
  · exact absurd h (by simp)
  · next s hs =>
      have hobey : s.bindings.Obey good := obey_of_matchShapes hpairs hgrants hs hb
      exact hobey.settleAll (Deferred.grants_of_matchShapes hpairs hgrants hs) h

end Bindings.Obey

/-! ## Bound names -/

/-- The number of arguments that a name with this binding goes with in a pattern: a formula is for
    names that stand alone. -/
def Binding.takes : Binding → Int
  | .formula _ => 0
  | .context c => c.arity

namespace Formula

theorem exists_instance_of_mem {b : Bindings} {as values : List Formula}
    (h : instantiateList b as = .ok values) : ∀ a ∈ as, ∃ f, a.instantiate b = .ok f := by
  induction as generalizing values with
  | nil => simp
  | cons a as ih =>
      obtain ⟨f, fs, hf, hfs, rfl⟩ := instantiateList_cons.1 h
      exact List.forall_mem_cons.2 ⟨⟨f, hf⟩, ih hfs⟩

/-- A pattern has an instance only if each name that occurs in it is bound to something that takes as
    many arguments as the name has there. -/
theorem exists_binding_of_instantiate {b : Bindings} {p f : Formula} (h : p.instantiate b = .ok f)
    {name : String} {count : Nat} (hname : p.Uses name count) :
    ∃ bound, b.get? name = some bound ∧ bound.takes = count := by
  induction p generalizing f with
  | top => exact absurd hname not_uses_top
  | bottom => exact absurd hname not_uses_bottom
  | app n args ih =>
      rcases instantiate_app_eq_ok.1 h with
        ⟨rfl, hbound⟩ | ⟨c, values, _, hbound, harity, hvalues, _⟩
      · rcases uses_app.1 hname with ⟨rfl, rfl⟩ | ⟨a, ha, _⟩
        · exact ⟨_, hbound, rfl⟩
        · exact absurd ha (by simp)
      · rcases uses_app.1 hname with ⟨rfl, rfl⟩ | ⟨a, ha, hname⟩
        · exact ⟨_, hbound, harity⟩
        · obtain ⟨g, hg⟩ := exists_instance_of_mem hvalues a ha
          exact ih a ha hg hname
  | neg p ih =>
      obtain ⟨g, hg, rfl⟩ := instantiate_neg_eq_ok.1 h
      exact ih hg (uses_neg.1 hname)
  | binary op p q ihp ihq =>
      obtain ⟨g, hg, g', hg', rfl⟩ := instantiate_binary_eq_ok.1 h
      rcases uses_binary.1 hname with hname | hname
      · exact ihp hg hname
      · exact ihq hg' hname
  | quant q n p ih =>
      obtain ⟨g, hg, rfl⟩ := instantiate_quant_eq_ok.1 h
      exact ih hg (uses_quant.1 hname)
  | hole i => exact absurd hname not_uses_hole

theorem mem_names_of_instantiate {b : Bindings} {p f : Formula} (h : p.instantiate b = .ok f)
    {name : String} {count : Nat} (hname : p.Uses name count) : name ∈ b.names := by
  obtain ⟨bound, hbound, -⟩ := exists_binding_of_instantiate h hname
  exact Assoc.mem_names_iff.2 ⟨bound, hbound⟩

end Formula

/-- Matching keeps what was bound before. It binds the names that occur in the patterns, alone or
    with arguments, and no others; a name that a quantifier of a pattern introduces occurs only where
    it is used. And it turns every pattern into its candidate. -/
theorem matchAll_binds_exactly {pairs : List (Formula × Formula)} {b b' : Bindings}
    (hpairs : ∀ pair ∈ pairs, pair.2.hasHoles = false) (h : matchAll pairs b = .ok (some b')) :
    (∀ name bound, b.get? name = some bound → b'.get? name = some bound) ∧
    (∀ name, name ∈ b'.names ↔
      name ∈ b.names ∨ ∃ pair ∈ pairs, ∃ count, pair.1.Uses name count) ∧
    ∀ pair ∈ pairs, pair.1.instantiate b' = .ok pair.2 := by
  obtain ⟨hext, hinst⟩ := matchAll_spec hpairs h
  refine ⟨hext, fun name => ⟨fun hname => ?_, ?_⟩, hinst⟩
  · -- a name is bound from the start, or at one of its occurrences
    have hobey : b'.Obey fun name _ =>
        name ∈ b.names ∨ ∃ pair ∈ pairs, ∃ count, pair.1.Uses name count := by
      refine Bindings.Obey.matchAll ?_ hpairs ?_ h
      · intro name bound hbound
        exact .inl (Assoc.mem_names_iff.2 ⟨bound, hbound⟩)
      · intro pair hpair
        constructor
        · intro name f hmem _
          exact .inr ⟨pair, hpair, _, _, hmem, rfl⟩
        · intro name args f values hmem _ _ _
          exact .inr ⟨pair, hpair, _, _, hmem, rfl⟩
    obtain ⟨bound, hbound⟩ := Assoc.mem_names_iff.1 hname
    exact hobey name bound hbound
  · rintro (hname | ⟨pair, hpair, count, huses⟩)
    · obtain ⟨bound, hbound⟩ := Assoc.mem_names_iff.1 hname
      exact Assoc.mem_names_iff.2 ⟨bound, hext name bound hbound⟩
    · exact Formula.mem_names_of_instantiate (hinst pair hpair) huses

/-- The context of `S` is found in a second round, when that of `F` is known. -/
theorem matchAll_binds_exactly_nested :
    let inner := Formula.app "F" [.var "y"]
    let target := Formula.or (.var "P") (.var "a")
    let pairs := [(Formula.and (.app "S" [inner]) inner, Formula.and (.neg target) target),
      (Formula.quant .all "x" (.var "y"), Formula.quant .all "x" (.var "a"))]
    let before : Bindings := [("z", .formula .top)]
    ∃ after, matchAll pairs before = .ok (some after) ∧ after.get? "z" = some (.formula .top) ∧
      (∀ name, name ∈ after.names ↔
        name ∈ before.names ∨ ∃ pair ∈ pairs, ∃ count, pair.1.Uses name count) ∧
      ∀ pair ∈ pairs, pair.1.instantiate after = .ok pair.2 := by
  intro inner target pairs before
  have hmatch : ∃ after, matchAll pairs before = .ok (some after) := by
    refine ⟨[("z", .formula .top), ("y", .formula (.var "a")),
      ("F", .context ⟨1, .or (.var "P") (.hole 0)⟩), ("S", .context ⟨1, .neg (.hole 0)⟩)], ?_⟩
    decide +kernel
  obtain ⟨after, hafter⟩ := hmatch
  obtain ⟨hkeeps, hnames, hinstances⟩ := matchAll_binds_exactly (by decide) hafter
  exact ⟨after, hafter, hkeeps "z" _ rfl, hnames, hinstances⟩

end Deduction
