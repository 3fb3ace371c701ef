import Deduction.Context
import Deduction.Formula.Truth
import Mathlib.Logic.Function.Basic

set_option autoImplicit false

/-! # Truth under an interpretation

An interpretation gives every name a truth function of its arguments, however many there are.
Connectives are truth-functional, and a quantifier ranges over everything that its name could stand
for. So every formula has a truth value, quantified ones included, and a name may be used with
several numbers of arguments.

A hole reads the value of its argument. This makes the truth value of a context a function of the
values of its arguments, and `truth_fillHoles` says that filling the context computes it: nothing
that a quantifier of the context binds occurs in an argument, so the quantifier does not change what
the argument means. -/

namespace Deduction

/-- What each name stands for: a truth function of any number of arguments. -/
abbrev Interpretation := String → List Bool → Bool

/-- Does a property hold of everything, or of something, that a bound name can stand for? -/
def Quantifier.Ranges : Quantifier → ((List Bool → Bool) → Prop) → Prop
  | .all, property => ∀ g, property g
  | .ex, property => ∃ g, property g

theorem elementAt?_map {α β : Type} (fn : α → β) (xs : List α) (i : Int) :
    elementAt? (xs.map fn) i = (elementAt? xs i).map fn := by
  simp only [elementAt?, List.length_map, List.getElem?_map]
  split
  · rfl
  · split <;> rfl

namespace Formula

open Classical in
mutual

/-- The truth value of a formula whose holes have the given values; a hole without one is false. -/
noncomputable def truth (I : Interpretation) (holes : List Bool) : Formula → Bool
  | .top => true
  | .bottom => false
  | .app name args => I name (truthList I holes args)
  | .neg f => !truth I holes f
  | .binary op l r => op.truth (truth I holes l) (truth I holes r)
  | .quant q name body =>
    decide (q.Ranges fun g => truth (Function.update I name g) holes body = true)
  | .hole i => (elementAt? holes i).getD false

noncomputable def truthList (I : Interpretation) (holes : List Bool) : List Formula → List Bool
  | [] => []
  | a :: as => truth I holes a :: truthList I holes as

end

theorem truthList_eq (I : Interpretation) (holes : List Bool) (as : List Formula) :
    truthList I holes as = as.map (truth I holes) := by
  induction as with
  | nil => rfl
  | cons a as ih => simp [truthList, ih]

/-- Does a formula without holes hold under an interpretation? -/
def Holds (I : Interpretation) (f : Formula) : Prop := f.truth I [] = true

/-! ## Truth depends only on the free names -/

theorem mem_freeNames_of_mem {name n : String} {args : List Formula} {a : Formula} (ha : a ∈ args)
    (hn : n ∈ a.freeNames) : n ∈ (Formula.app name args).freeNames := by
  rw [freeNames, freeNamesList_eq]
  exact List.mem_cons_of_mem _ (List.mem_flatMap.2 ⟨a, ha, hn⟩)

/-- Quantifying is the same over two properties that agree. -/
theorem truth_quant_congr {I J : Interpretation} {holes holes' : List Bool} {q : Quantifier}
    {name : String} {body body' : Formula}
    (h : ∀ g, body.truth (Function.update I name g) holes
      = body'.truth (Function.update J name g) holes') :
    (Formula.quant q name body).truth I holes = (Formula.quant q name body').truth J holes' := by
  have hproperty : (fun g => body.truth (Function.update I name g) holes = true)
      = fun g => body'.truth (Function.update J name g) holes' = true :=
    funext fun g => by rw [h g]
  simp only [truth, decide_eq_decide]
  rw [hproperty]

theorem truth_congr (f : Formula) {I J : Interpretation} (holes : List Bool)
    (h : ∀ n ∈ f.freeNames, I n = J n) : f.truth I holes = f.truth J holes := by
  induction f generalizing I J with
  | top => rfl
  | bottom => rfl
  | app name args ih =>
      have hargs : args.map (truth I holes) = args.map (truth J holes) :=
        List.map_congr_left fun a ha => ih a ha fun n hn => h n (mem_freeNames_of_mem ha hn)
      simp only [truth, truthList_eq]
      rw [hargs, h name (by simp [freeNames])]
  | neg f ih =>
      simp only [truth]
      rw [ih h]
  | binary op l r ihl ihr =>
      simp only [truth]
      rw [ihl fun n hn => h n (List.mem_append.2 (Or.inl hn)),
        ihr fun n hn => h n (List.mem_append.2 (Or.inr hn))]
  | quant q name body ih =>
      refine truth_quant_congr fun g => ih fun n hn => ?_
      by_cases hname : n = name
      · subst hname; simp
      · rw [Function.update_of_ne hname, Function.update_of_ne hname]
        exact h n (List.mem_filter.2 ⟨hn, by simpa using hname⟩)
  | hole i => rfl

/-- A formula that mentions none of some names means the same when only these are given another
    meaning. -/
theorem truth_eq_of_not_mentions {f : Formula} {bound : List String} {I J : Interpretation}
    (holes : List Bool) (hf : f.mentions bound = false) (h : ∀ n, n ∉ bound → I n = J n) :
    f.truth I holes = f.truth J holes := by
  refine truth_congr f holes fun n hn => h n fun hbound => ?_
  have hmentions : f.mentions bound = true :=
    List.any_eq_true.2 ⟨n, hn, List.contains_iff_mem.2 hbound⟩
  rw [hf] at hmentions
  exact absurd hmentions (by simp)

/-! ## Truth of filled contexts -/

theorem truthList_fillHolesList {args : List Formula} {holes : List Bool}
    {bound : List String} {I : Interpretation} {values : List Bool} :
    ∀ {as bs : List Formula},
      (∀ a ∈ as, ∀ b, a.captures args bound = some false → a.fillHoles args = some b →
        b.truth I holes = a.truth I values) →
      capturesAny args bound as = some false → fillHolesList args as = some bs →
      truthList I holes bs = truthList I values as
  | [], bs, _, _, hfill => by
      simp only [fillHolesList, Option.some.injEq] at hfill
      subst hfill
      rfl
  | a :: as, bs, ih, hcap, hfill => by
      simp only [fillHolesList, Option.bind_eq_bind, Option.bind_eq_some_iff] at hfill
      obtain ⟨b, hb, bs', hbs, hcons⟩ := hfill
      obtain rfl : b :: bs' = bs := by simpa using hcons
      simp only [capturesAny] at hcap
      split at hcap
      · next ha =>
          have htail := truthList_fillHolesList (fun a' ha' => ih a' (List.mem_cons_of_mem a ha'))
            hcap hbs
          simp only [truthList]
          rw [ih a (List.mem_cons_self ..) b ha hb, htail]
      · next hne => exact absurd hcap hne

/-- The truth value of a filled body, under an interpretation that differs from the outer one `I₀`
    only at bound names: the holes read what the arguments mean outside. -/
theorem truth_fillHoles {args : List Formula} {holes : List Bool} {I₀ : Interpretation}
    (body : Formula) {bound : List String} {I : Interpretation} {g : Formula}
    (hI : ∀ n, n ∉ bound → I n = I₀ n) (hcap : body.captures args bound = some false)
    (hfill : body.fillHoles args = some g) :
    g.truth I holes = body.truth I (args.map (truth I₀ holes)) := by
  induction body generalizing bound I g with
  | top => simp only [fillHoles, Option.some.injEq] at hfill; subst hfill; rfl
  | bottom => simp only [fillHoles, Option.some.injEq] at hfill; subst hfill; rfl
  | app name as ih =>
      simp only [fillHoles, Option.bind_eq_bind, Option.bind_eq_some_iff] at hfill
      obtain ⟨bs, hbs, hg⟩ := hfill
      obtain rfl : Formula.app name bs = g := by simpa using hg
      simp only [truth]
      rw [truthList_fillHolesList (fun a ha b => ih a ha hI) hcap hbs]
  | neg f ih =>
      simp only [fillHoles, Option.bind_eq_bind, Option.bind_eq_some_iff] at hfill
      obtain ⟨f', hf', hg⟩ := hfill
      obtain rfl : Formula.neg f' = g := by simpa using hg
      simp only [truth]
      rw [ih hI hcap hf']
  | binary op l r ihl ihr =>
      simp only [fillHoles, Option.bind_eq_bind, Option.bind_eq_some_iff] at hfill
      obtain ⟨l', hl', r', hr', hg⟩ := hfill
      obtain rfl : Formula.binary op l' r' = g := by simpa using hg
      simp only [captures] at hcap
      split at hcap
      · next hl =>
          simp only [truth]
          rw [ihl hI hl hl', ihr hI hcap hr']
      · next hne => exact absurd hcap hne
  | quant q name f ih =>
      simp only [fillHoles, Option.bind_eq_bind, Option.bind_eq_some_iff] at hfill
      obtain ⟨f', hf', hg⟩ := hfill
      obtain rfl : Formula.quant q name f' = g := by simpa using hg
      -- the name is bound from here on, so the meaning given to it may differ from the outer one
      refine truth_quant_congr fun m => ih (fun n hn => ?_) hcap hf'
      simp only [List.mem_cons, not_or] at hn
      rw [Function.update_of_ne hn.1]
      exact hI n hn.2
  | hole i =>
      simp only [captures, Option.map_eq_some_iff] at hcap
      obtain ⟨a, ha, hmentions⟩ := hcap
      simp only [fillHoles] at hfill
      obtain rfl : a = g := Option.some.inj (ha.symm.trans hfill)
      simp only [truth, elementAt?_map]
      rw [ha]
      exact truth_eq_of_not_mentions holes hmentions hI

end Formula

/-- A filled context has the truth value that its body computes from those of the arguments. -/
theorem Context.truth_fill {c : Context} {args : List Formula} {g : Formula} (I : Interpretation)
    (holes : List Bool) (h : c.fill args = .ok g) :
    g.truth I holes = c.body.truth I (args.map (Formula.truth I holes)) := by
  unfold Context.fill at h
  split at h
  · exact absurd h (by simp)
  · exact absurd h (by simp)
  · next hcap =>
      split at h
      · exact absurd h (by simp)
      · next f hfill =>
          obtain rfl : f = g := by simpa using h
          exact Formula.truth_fillHoles c.body (fun _ _ => rfl) hcap hfill

end Deduction
