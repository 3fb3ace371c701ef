import Deduction.Proofs.BoundNames

set_option autoImplicit false

/-! # Why matching fails for good

Matching gives up for good when the instance of an argument is needed and a name in it is bound with
another number of arguments than it has there. A name alone is only bound to formulas, and one with
arguments only to contexts of that many holes. So the patterns then use the name with two numbers of
arguments, and one of these uses is inside an argument. A hole of a bound context is never without
an argument.

In particular matching does not fail if the patterns use each name with one number of arguments. -/

namespace Deduction

/-! ## Holes and their arguments -/

theorem isSome_elementAt?_congr {α β : Type} {xs : List α} {ys : List β}
    (h : xs.length = ys.length) (i : Int) :
    (elementAt? xs i).isSome = (elementAt? ys i).isSome := by
  have hnat (n : Nat) : xs[n]?.isSome = ys[n]?.isSome := by
    rw [Bool.eq_iff_iff]
    simp [h]
  unfold elementAt?
  by_cases hfront : 0 ≤ i
  · simp only [if_pos hfront, hnat]
  · by_cases hback : -(ys.length : Int) ≤ i
    · simp only [if_neg hfront, h, if_pos hback, hnat]
    · simp only [if_neg hfront, h, if_neg hback, Option.isSome_none]

namespace Formula

/-- Every hole of the formula has an argument. -/
def HolesFilled (f : Formula) (args : List Formula) : Prop :=
  ∀ i, .hole i ∈ f.subformulas → (elementAt? args i).isSome = true

variable {args : List Formula}

theorem holesFilled_app {name : String} {as : List Formula} :
    (Formula.app name as).HolesFilled args ↔ ∀ a ∈ as, a.HolesFilled args := by
  simp only [HolesFilled, subformulas, subformulasList_eq, List.mem_cons, reduceCtorEq, false_or,
    List.mem_flatMap]
  constructor
  · intro h a ha i hi
    exact h i ⟨a, ha, hi⟩
  · rintro h i ⟨a, ha, hi⟩
    exact h a ha i hi

theorem holesFilled_neg {f : Formula} : (Formula.neg f).HolesFilled args ↔ f.HolesFilled args := by
  simp [HolesFilled, subformulas]

theorem holesFilled_binary {op : Connective} {l r : Formula} :
    (Formula.binary op l r).HolesFilled args ↔ l.HolesFilled args ∧ r.HolesFilled args := by
  simp [HolesFilled, subformulas, or_imp, forall_and]

theorem holesFilled_quant {q : Quantifier} {name : String} {body : Formula} :
    (Formula.quant q name body).HolesFilled args ↔ body.HolesFilled args := by
  simp [HolesFilled, subformulas]

theorem holesFilled_hole {i : Int} :
    (Formula.hole i).HolesFilled args ↔ (elementAt? args i).isSome = true := by
  simp [HolesFilled, subformulas]

theorem isSome_fillHolesList {as : List Formula} :
    (fillHolesList args as).isSome = true ↔ ∀ a ∈ as, (a.fillHoles args).isSome = true := by
  induction as with
  | nil => simp [fillHolesList]
  | cons a as ih =>
      rw [List.forall_mem_cons, ← ih, fillHolesList]
      cases a.fillHoles args <;> cases fillHolesList args as <;> simp

/-- The holes can be filled exactly if each has an argument. -/
theorem isSome_fillHoles {f : Formula} :
    (f.fillHoles args).isSome = true ↔ f.HolesFilled args := by
  induction f with
  | top => simp [fillHoles, HolesFilled, subformulas]
  | bottom => simp [fillHoles, HolesFilled, subformulas]
  | app name as ih =>
      have hargs : (fillHolesList args as).isSome = true ↔ ∀ a ∈ as, a.HolesFilled args :=
        isSome_fillHolesList.trans (forall₂_congr ih)
      rw [holesFilled_app, ← hargs, fillHoles]
      cases fillHolesList args as <;> simp
  | neg f ih =>
      rw [holesFilled_neg, ← ih, fillHoles]
      cases f.fillHoles args <;> simp
  | binary op l r ihl ihr =>
      rw [holesFilled_binary, ← ihl, ← ihr, fillHoles]
      cases l.fillHoles args <;> cases r.fillHoles args <;> simp
  | quant q name body ih =>
      rw [holesFilled_quant, ← ih, fillHoles]
      cases body.fillHoles args <;> simp
  | hole i => rw [holesFilled_hole, fillHoles]

theorem isSome_capturesAny {bound : List String} {as : List Formula}
    (h : ∀ a ∈ as, (a.captures args bound).isSome = true) :
    (capturesAny args bound as).isSome = true := by
  induction as with
  | nil => rfl
  | cons a as ih =>
      obtain ⟨ha, has⟩ := List.forall_mem_cons.1 h
      rw [capturesAny]
      split
      · exact ih has
      · exact ha

/-- The search for captured names comes to an end, if each hole has an argument. -/
theorem isSome_captures {f : Formula} (h : f.HolesFilled args) (bound : List String) :
    (f.captures args bound).isSome = true := by
  induction f generalizing bound with
  | top => rfl
  | bottom => rfl
  | app name as ih =>
      exact isSome_capturesAny fun a ha => ih a ha (holesFilled_app.1 h a ha) bound
  | neg f ih => exact ih (holesFilled_neg.1 h) bound
  | binary op l r ihl ihr =>
      obtain ⟨hl, hr⟩ := holesFilled_binary.1 h
      rw [captures]
      split
      · exact ihr hr bound
      · exact ihl hl bound
  | quant q name body ih => exact ih (holesFilled_quant.1 h) (name :: bound)
  | hole i =>
      rw [captures, Option.isSome_map]
      exact holesFilled_hole.1 h

/-- The holes of an abstraction are numbers of targets. -/
theorem holesFilled_abstract {f : Formula} (hf : f.hasHoles = false) {targets : List Formula}
    (hargs : args.length = targets.length) : (f.abstract targets []).HolesFilled args := by
  have hfill := (fillsTo_abstract targets f hf []).2
  have htargets : (f.abstract targets []).HolesFilled targets :=
    isSome_fillHoles.1 (Option.isSome_iff_exists.2 ⟨f, hfill⟩)
  intro i hi
  rw [isSome_elementAt?_congr hargs]
  exact htargets i hi

end Formula

theorem Context.fill_ne_noArgument {c : Context} {args : List Formula}
    (h : c.body.HolesFilled args) : c.fill args ≠ .error .noArgument := by
  obtain ⟨captured, hcaptured⟩ := Option.isSome_iff_exists.1 (Formula.isSome_captures h [])
  obtain ⟨f, hf⟩ := Option.isSome_iff_exists.1 (Formula.isSome_fillHoles.2 h)
  unfold Context.fill Context.captures
  rw [hcaptured, hf]
  cases captured <;> simp

theorem Formula.mem_subformulas_self (f : Formula) : f ∈ f.subformulas := by
  cases f <;> exact List.mem_cons_self ..

theorem Formula.mem_subformulas_trans {f g h : Formula} (hf : f ∈ g.subformulas)
    (hg : g ∈ h.subformulas) : f ∈ h.subformulas := by
  induction h using induct_children with
  | step h ih =>
      rcases mem_subformulas_iff.1 hg with rfl | ⟨a, ha, hg⟩
      · exact hf
      · exact mem_subformulas_iff.2 (.inr ⟨a, ha, ih a ha hg⟩)

/-! ## Uses and conflicts -/

/-- Does the formula use the name with that number of arguments, inside an argument? -/
def Formula.UsesInside (f : Formula) (name : String) (count : Nat) : Prop :=
  ∃ outer args, .app outer args ∈ f.subformulas ∧ ∃ a ∈ args, a.Uses name count

theorem Formula.UsesInside.uses {f : Formula} {name : String} {count : Nat}
    (h : f.UsesInside name count) : f.Uses name count := by
  obtain ⟨outer, args, hmem, a, ha, huses⟩ := h
  obtain ⟨as, has, hcount⟩ : (Formula.app outer args).Uses name count :=
    uses_app.2 (.inr ⟨a, ha, huses⟩)
  exact ⟨as, mem_subformulas_trans has hmem, hcount⟩

/-- A pattern with the given uses of names and no others, and only those of `inner` inside
    arguments. -/
structure Formula.UsesAmong (p : Formula) (uses inner : String → Nat → Prop) : Prop where
  all : ∀ name count, p.Uses name count → uses name count
  inside : ∀ name count, p.UsesInside name count → inner name count

/-- What a name may be bound to at one of its uses. -/
def Binding.FromUse (uses : String → Nat → Prop) (name : String) : Binding → Prop
  | .formula _ => uses name 0
  | .context c => ∃ count, count ≠ 0 ∧ uses name count ∧ c.arity = count ∧
    ∀ args : List Formula, (args.length : Int) = c.arity → c.body.HolesFilled args

/-- The name of the conflict has two uses with different numbers of arguments, the second of them
    inside an argument. -/
def ArityConflict.Between (conflict : ArityConflict) (uses inner : String → Nat → Prop) : Prop :=
  ∃ first second : Nat, first ≠ second ∧ uses conflict.name first ∧ inner conflict.name second ∧
    conflict.second = second

/-- An error that matching takes to mean that an instance is not known, or a conflict. -/
def InstanceError.Explained (uses inner : String → Nat → Prop) : InstanceError → Prop
  | .unbound _ | .fill (.capture ..) => True
  | .arity conflict => conflict.Between uses inner
  | .fill .noArgument => False

/-- An error that is a conflict. -/
def MatchError.Explained (uses inner : String → Nat → Prop) : MatchError → Prop
  | .arity conflict => conflict.Between uses inner
  | .noArgument => False

variable {uses inner : String → Nat → Prop}

theorem Formula.UsesAmong.of_mem {p q : Formula} (hp : p.UsesAmong uses inner)
    (hq : q ∈ p.subformulas) : q.UsesAmong uses inner := by
  constructor
  · rintro name count ⟨args, hmem, hcount⟩
    exact hp.all name count ⟨args, mem_subformulas_trans hmem hq, hcount⟩
  · rintro name count ⟨outer, args, hmem, huses⟩
    exact hp.inside name count ⟨outer, args, mem_subformulas_trans hmem hq, huses⟩

theorem Formula.UsesAmong.grants {p : Formula} (hp : p.UsesAmong uses inner) :
    p.Grants (Binding.FromUse uses) := by
  constructor
  · intro name f hmem _
    exact hp.all name 0 ⟨[], hmem, rfl⟩
  · intro name args f values hmem hargs hf hvalues
    refine ⟨args.length, ?_, hp.all name _ ⟨args, hmem, rfl⟩, congrArg Nat.cast hvalues, ?_⟩
    · exact fun h => hargs (List.length_eq_zero_iff.1 h)
    · intro args' hargs'
      exact holesFilled_abstract hf (Int.ofNat.inj hargs')

/-! ## Instances -/

namespace Formula

theorem exists_mem_of_instantiateList_eq_error {b : Bindings} {as : List Formula}
    {e : InstanceError} (h : instantiateList b as = .error e) :
    ∃ a ∈ as, a.instantiate b = .error e := by
  induction as with
  | nil => exact absurd h (by simp [instantiateList])
  | cons a as ih =>
      rcases bind_eq_error.1 h with h | ⟨f, _, h⟩
      · exact ⟨a, List.mem_cons_self .., h⟩
      · rcases bind_eq_error.1 h with h | ⟨fs, _, h⟩
        · obtain ⟨a', ha', h⟩ := ih h
          exact ⟨a', List.mem_cons_of_mem _ ha', h⟩
        · exact absurd h (by simp [pure, Except.pure])

/-- A pattern inside an argument has an instance, or a name is unbound or captured, or there is a
    conflict. -/
theorem explained_of_instantiate {b : Bindings} (hb : b.Obey (Binding.FromUse uses)) {p : Formula}
    (hp : ∀ name count, p.Uses name count → inner name count) {e : InstanceError}
    (h : p.instantiate b = .error e) : e.Explained uses inner := by
  induction p with
  | top => cases h
  | bottom => cases h
  | app name args ih =>
      have hinner : inner name args.length := hp name _ (uses_app_self name args)
      rw [instantiate] at h
      split at h
      · cases h
        trivial
      · next f hname =>
          split at h
          · cases h
          · next hargs =>
              cases h
              refine ⟨0, args.length, fun heq => hargs ?_, hb name _ hname, hinner, rfl⟩
              rw [List.length_eq_zero_iff.1 heq.symm]
              rfl
      · next c hname =>
          obtain ⟨count, hcount, huses, harity, hholes⟩ := hb name _ hname
          split at h
          · next hmatches =>
              rcases bind_eq_error.1 h with h | ⟨values, hvalues, h⟩
              · obtain ⟨a, ha, h⟩ := exists_mem_of_instantiateList_eq_error h
                exact ih a ha (fun n k hn => hp n k (uses_app.2 (.inr ⟨a, ha, hn⟩))) h
              · obtain ⟨e', hfill, rfl⟩ := mapError_eq_error.1 h
                have hlength : (values.length : Int) = c.arity := by
                  rw [length_instantiateList hvalues]
                  simp only [Bool.and_eq_true, beq_iff_eq] at hmatches
                  exact hmatches.2.symm
                cases e' with
                | noArgument =>
                    exact absurd hfill (Context.fill_ne_noArgument (hholes values hlength))
                | capture body as => trivial
          · next hmismatch =>
              cases h
              refine ⟨count, args.length, fun heq => hmismatch ?_, huses, hinner, rfl⟩
              have hargs : args ≠ [] := fun hnil => hcount (by rw [heq, hnil]; rfl)
              simp [hargs, harity, heq]
  | neg p ih =>
      rcases bind_eq_error.1 h with h | ⟨f, _, h⟩
      · exact ih (fun n k hn => hp n k (uses_neg.2 hn)) h
      · cases h
  | binary op l r ihl ihr =>
      rcases bind_eq_error.1 h with h | ⟨f, _, h⟩
      · exact ihl (fun n k hn => hp n k (uses_binary.2 (.inl hn))) h
      · rcases bind_eq_error.1 h with h | ⟨g, _, h⟩
        · exact ihr (fun n k hn => hp n k (uses_binary.2 (.inr hn))) h
        · cases h
  | quant q name body ih =>
      rcases bind_eq_error.1 h with h | ⟨f, _, h⟩
      · exact ih (fun n k hn => hp n k (uses_quant.2 hn)) h
      · cases h
  | hole i => cases h

end Formula

/-! ## Settling -/

/-- An occurrence that was put off, in a pattern with the given uses. -/
structure Deferred.UsesAmong (d : Deferred) (uses inner : String → Nat → Prop) : Prop where
  wellFormed : d.WellFormed
  pattern : d.pattern.UsesAmong uses inner

theorem Deferred.UsesAmong.grants {d : Deferred} (hd : d.UsesAmong uses inner) :
    d.Grants (Binding.FromUse uses) := by
  intro values hvalues
  exact hd.pattern.grants.context d.name d.args d.candidate values (List.mem_cons_self ..)
    hd.wellFormed.1 hd.wellFormed.2 hvalues

theorem explained_of_groundArgs {b : Bindings} (hb : b.Obey (Binding.FromUse uses))
    {args : List Formula} (hargs : ∀ a ∈ args, ∀ name count, a.Uses name count → inner name count)
    {e : MatchError} (h : groundArgs b args = .error e) : e.Explained uses inner := by
  unfold groundArgs at h
  cases hvalues : Formula.instantiateList b args with
  | ok values =>
      rw [hvalues] at h
      cases h
  | error e' =>
      obtain ⟨a, ha, he⟩ := Formula.exists_mem_of_instantiateList_eq_error hvalues
      have hexplained := Formula.explained_of_instantiate hb (hargs a ha) he
      rw [hvalues] at h
      rcases e' with name | conflict | _ | ⟨body, as⟩
      · cases h
      · cases h
        exact hexplained
      · exact absurd hexplained id
      · cases h

/-- Settling an occurrence fails for good only at a conflict. -/
theorem Deferred.UsesAmong.explained_of_settle {d : Deferred} (hd : d.UsesAmong uses inner)
    {b : Bindings} (hb : b.Obey (Binding.FromUse uses)) {e : MatchError}
    (h : d.settle b = .error e) : e.Explained uses inner := by
  have hargs : ∀ a ∈ d.args, ∀ name count, a.Uses name count → inner name count :=
    fun a ha name count hn =>
      hd.pattern.inside name count ⟨d.name, d.args, List.mem_cons_self .., a, ha, hn⟩
  rcases bind_eq_error.1 h with h | ⟨found, _, h⟩
  · exact explained_of_groundArgs hb hargs h
  · cases found with
    | none => cases h
    | some values =>
        dsimp only at h
        split at h
        · cases h
        · cases h
        · next c hname =>
            obtain ⟨-, -, -, -, hholes⟩ := hb d.name _ hname
            split at h
            · cases h
            · next harity =>
                have hfill := Context.fill_ne_noArgument (hholes values (not_not.1 harity).symm)
                split at h
                · cases h
                · cases h
                · next hnone => exact absurd hnone hfill

theorem explained_of_settleRound {b : Bindings} (hb : b.Obey (Binding.FromUse uses))
    {ds : List Deferred} (hds : ∀ d ∈ ds, d.UsesAmong uses inner) {e : MatchError}
    (h : settleRound b ds = .error e) : e.Explained uses inner := by
  induction ds generalizing b with
  | nil => cases h
  | cons d ds ih =>
      obtain ⟨hd, hds⟩ := List.forall_mem_cons.1 hds
      rcases bind_eq_error.1 h with h | ⟨settled, hsettled, h⟩
      · exact hd.explained_of_settle hb h
      · cases settled with
        | fails => cases h
        | holds b' => exact ih (hb.settle hd.grants hsettled) hds h
        | waits =>
            rcases bind_eq_error.1 h with h | ⟨found, _, h⟩
            · exact ih hb hds h
            · cases found <;> cases h

theorem explained_of_settleAll {b : Bindings} (hb : b.Obey (Binding.FromUse uses))
    {ds : List Deferred} (hds : ∀ d ∈ ds, d.UsesAmong uses inner) {e : MatchError}
    (h : settleAll b ds = .error e) : e.Explained uses inner := by
  fun_induction settleAll b ds with
  | case1 => cases h
  | case2 b ds hempty e' hround =>
      cases h
      exact explained_of_settleRound hb hds hround
  | case3 => cases h
  | case4 b ds hempty b₁ waiting hround hlt ih =>
      obtain ⟨-, hsub, -⟩ := settleRound_spec (fun d hd => (hds d hd).wellFormed) hround
      obtain ⟨hb₁, -⟩ := hb.settleRound (fun d hd => (hds d hd).grants) hround
      exact ih hb₁ (fun d hd => hds d (hsub d hd)) h
  | case5 => cases h

/-! ## Matching -/

/-- Matching fails for good only at a conflict. -/
theorem explained_of_matchAll {pairs : List (Formula × Formula)} {b : Bindings}
    (hb : b.Obey (Binding.FromUse uses)) (hpairs : ∀ pair ∈ pairs, pair.2.hasHoles = false)
    (huses : ∀ pair ∈ pairs, pair.1.UsesAmong uses inner) {e : MatchError}
    (h : matchAll pairs b = .error e) : e.Explained uses inner := by
  unfold matchAll at h
  split at h
  · cases h
  · next s hs =>
      have hdeferred : ∀ d ∈ s.deferred, d.UsesAmong uses inner := by
        intro d hd
        obtain ⟨hwell, pair, hpair, hmem⟩ := deferred_of_matchShapes hpairs hs d hd
        exact ⟨hwell, (huses pair hpair).of_mem hmem⟩
      have hgrants : ∀ pair ∈ pairs, pair.1.Grants (Binding.FromUse uses) :=
        fun pair hpair => (huses pair hpair).grants
      exact explained_of_settleAll (Bindings.obey_of_matchShapes hpairs hgrants hs hb) hdeferred h

/-! ## Uniform patterns -/

/-- The pattern uses every name with the number of arguments that is its own. -/
def Formula.UniformIn (p : Formula) (arity : String → Nat) : Prop :=
  ∀ name count, p.Uses name count → count = arity name

/-- Has the formula at its root the number of arguments that is its name's own? -/
def Formula.rootUniformIn (f : Formula) (arity : String → Nat) : Bool :=
  match f with
  | .app name args => args.length == arity name
  | .top | .bottom | .neg _ | .binary .. | .quant .. | .hole _ => true

theorem Formula.uniformIn_of_subformulas {p : Formula} {arity : String → Nat}
    (h : ∀ f ∈ p.subformulas, f.rootUniformIn arity = true) : p.UniformIn arity := by
  rintro name count ⟨args, hmem, rfl⟩
  exact beq_iff_eq.1 (h _ hmem)

/-- The number of arguments that a name takes under bindings. -/
def Bindings.argumentCount (b : Bindings) (name : String) : Nat :=
  match b.get? name with
  | some bound => bound.takes.toNat
  | none => 0

/-- Patterns that have instances under the same bindings use each name with one number of
    arguments. -/
theorem Formula.uniformIn_of_instantiate {p f : Formula} {b : Bindings}
    (h : p.instantiate b = .ok f) : p.UniformIn b.argumentCount := by
  intro name count huses
  obtain ⟨bound, hbound, hcount⟩ := exists_binding_of_instantiate h huses
  simp [Bindings.argumentCount, hbound, hcount]

/-- The number of arguments that is the name's own. -/
def OwnCount (arity : String → Nat) (name : String) (count : Nat) : Prop := count = arity name

variable {arity : String → Nat}

theorem Formula.UniformIn.usesAmong {p : Formula} (hp : p.UniformIn arity) :
    p.UsesAmong (OwnCount arity) (OwnCount arity) :=
  ⟨hp, fun name count h => hp name count h.uses⟩

theorem Formula.UniformIn.of_mem {p q : Formula} (hp : p.UniformIn arity)
    (hq : q ∈ p.subformulas) : q.UniformIn arity :=
  (hp.usesAmong.of_mem hq).all

/-- Names with one number of arguments have no conflict. -/
theorem MatchError.not_explained_ownCount (e : MatchError) (arity : String → Nat) :
    ¬ e.Explained (OwnCount arity) (OwnCount arity) := by
  cases e with
  | noArgument => exact id
  | arity conflict =>
      rintro ⟨first, second, hne, hfirst, hsecond, -⟩
      exact hne (hfirst.trans hsecond.symm)

end Deduction
