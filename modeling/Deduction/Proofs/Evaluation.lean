import Deduction.Proofs.Abstraction
import Deduction.Proofs.Interpretation
import Deduction.Proofs.Outcome

set_option autoImplicit false

/-! # Evaluation and interpretations

An environment is read as an interpretation: a name stands for the function that its table lists.
Evaluation then computes truth under that interpretation. It fails on quantifiers and holes wherever
they occur, and otherwise gives a value as soon as every table is long enough for the uses of its
name. -/

namespace Deduction

namespace Formula

/-! ## Quantifiers and uses of names -/

def isQuantified : Formula → Bool
  | .quant .. => true
  | _ => false

/-- Does a quantifier occur in the formula? -/
def hasQuantifiers (f : Formula) : Bool := f.subformulas.any isQuantified

/-- Does the formula use the name with that number of arguments? -/
def Uses (f : Formula) (name : String) (count : Nat) : Prop :=
  ∃ args, .app name args ∈ f.subformulas ∧ args.length = count

@[simp] theorem hasQuantifiers_top : hasQuantifiers .top = false := rfl

@[simp] theorem hasQuantifiers_bottom : hasQuantifiers .bottom = false := rfl

@[simp] theorem hasQuantifiers_hole (i : Int) : hasQuantifiers (.hole i) = false := rfl

@[simp] theorem hasQuantifiers_app (name : String) (args : List Formula) :
    hasQuantifiers (.app name args) = args.any hasQuantifiers := by
  simp only [hasQuantifiers, subformulas, List.any_cons, isQuantified, Bool.false_or,
    subformulasList_eq, List.any_flatMap]
  rfl

@[simp] theorem hasQuantifiers_neg (f : Formula) :
    hasQuantifiers (.neg f) = f.hasQuantifiers := by
  simp [hasQuantifiers, subformulas, isQuantified]

@[simp] theorem hasQuantifiers_binary (op : Connective) (l r : Formula) :
    hasQuantifiers (.binary op l r) = (l.hasQuantifiers || r.hasQuantifiers) := by
  simp [hasQuantifiers, subformulas, isQuantified]

@[simp] theorem hasQuantifiers_quant (q : Quantifier) (name : String) (body : Formula) :
    hasQuantifiers (.quant q name body) = true := by
  simp [hasQuantifiers, subformulas, isQuantified]

theorem not_uses_top {n : String} {count : Nat} : ¬ (Formula.top).Uses n count := by
  simp [Uses, subformulas]

theorem not_uses_bottom {n : String} {count : Nat} : ¬ (Formula.bottom).Uses n count := by
  simp [Uses, subformulas]

theorem not_uses_hole {i : Int} {n : String} {count : Nat} : ¬ (Formula.hole i).Uses n count := by
  simp [Uses, subformulas]

theorem uses_app {name n : String} {args : List Formula} {count : Nat} :
    (Formula.app name args).Uses n count ↔
      (n = name ∧ args.length = count) ∨ ∃ a ∈ args, a.Uses n count := by
  simp only [Uses, subformulas, subformulasList_eq, List.mem_cons, List.mem_flatMap, app.injEq]
  constructor
  · rintro ⟨as, ⟨hn, rfl⟩ | ⟨a, ha, has⟩, hcount⟩
    · exact Or.inl ⟨hn, hcount⟩
    · exact Or.inr ⟨a, ha, as, has, hcount⟩
  · rintro (⟨hn, hcount⟩ | ⟨a, ha, as, has, hcount⟩)
    · exact ⟨args, Or.inl ⟨hn, rfl⟩, hcount⟩
    · exact ⟨as, Or.inr ⟨a, ha, has⟩, hcount⟩

theorem uses_app_self (name : String) (args : List Formula) :
    (Formula.app name args).Uses name args.length :=
  uses_app.2 (Or.inl ⟨rfl, rfl⟩)

theorem uses_neg {f : Formula} {n : String} {count : Nat} :
    (Formula.neg f).Uses n count ↔ f.Uses n count := by
  simp [Uses, subformulas]

theorem uses_binary {op : Connective} {l r : Formula} {n : String} {count : Nat} :
    (Formula.binary op l r).Uses n count ↔ l.Uses n count ∨ r.Uses n count := by
  simp [Uses, subformulas, or_and_right, exists_or]

theorem uses_quant {q : Quantifier} {name : String} {body : Formula} {n : String} {count : Nat} :
    (Formula.quant q name body).Uses n count ↔ body.Uses n count := by
  simp [Uses, subformulas]

/-- The truth of a formula without quantifiers depends on what its names make of as many arguments
    as they have in it, and on nothing else. -/
theorem truth_congr_of_uses {f : Formula} {I J : Interpretation} (holes : List Bool)
    (hf : f.hasQuantifiers = false)
    (h : ∀ name (values : List Bool), f.Uses name values.length → I name values = J name values) :
    f.truth I holes = f.truth J holes := by
  induction f with
  | top => rfl
  | bottom => rfl
  | app name args ih =>
      have hquant : ∀ a ∈ args, a.hasQuantifiers = false := by simpa using hf
      have hargs : args.map (truth I holes) = args.map (truth J holes) :=
        List.map_congr_left fun a ha =>
          ih a ha (hquant a ha) fun n values hn => h n values (uses_app.2 (Or.inr ⟨a, ha, hn⟩))
      simp only [truth, truthList_eq]
      rw [hargs]
      refine h name _ ?_
      rw [List.length_map]
      exact uses_app_self name args
  | neg f ih =>
      simp only [truth]
      rw [ih (by simpa using hf) fun n values hn => h n values (uses_neg.2 hn)]
  | binary op l r ihl ihr =>
      simp only [hasQuantifiers_binary, Bool.or_eq_false_iff] at hf
      simp only [truth]
      rw [ihl hf.1 fun n values hn => h n values (uses_binary.2 (Or.inl hn)),
        ihr hf.2 fun n values hn => h n values (uses_binary.2 (Or.inr hn))]
  | quant q name body ih => simp at hf
  | hole i => rfl

end Formula

/-! ## Environments as interpretations -/

/-- A name stands for the function that its table lists; where there is no entry the value is
    false. -/
def Environment.interpretation (env : Environment) : Interpretation := fun name values =>
  ((env.get? name).bind fun table => table[tableIndex values]?).getD false

namespace Formula

theorem evaluateList_cons {env : Environment} {a : Formula} {as : List Formula}
    {values : List Bool} :
    evaluateList env (a :: as) = .ok values ↔
      ∃ v vs, a.evaluate env = .ok v ∧ evaluateList env as = .ok vs ∧ values = v :: vs := by
  simp only [evaluateList, bind_eq_ok, pure_eq_ok]
  constructor
  · rintro ⟨v, hv, vs, hvs, rfl⟩
    exact ⟨v, vs, hv, hvs, rfl⟩
  · rintro ⟨v, vs, hv, hvs, rfl⟩
    exact ⟨v, hv, vs, hvs, rfl⟩

theorem evaluate_app_eq_ok {env : Environment} {name : String} {args : List Formula} {b : Bool} :
    (Formula.app name args).evaluate env = .ok b ↔
      ∃ table values, env.get? name = some table ∧ evaluateList env args = .ok values ∧
        table[tableIndex values]? = some b := by
  simp only [evaluate]
  cases henv : env.get? name with
  | none => simp
  | some table =>
      simp only [bind_eq_ok, Option.some.injEq]
      constructor
      · rintro ⟨values, hvalues, h⟩
        split at h
        · next value hvalue =>
            obtain rfl : value = b := by simpa using h
            exact ⟨table, values, rfl, hvalues, hvalue⟩
        · exact absurd h (by simp)
      · rintro ⟨table', values, rfl, hvalues, hb⟩
        refine ⟨values, hvalues, ?_⟩
        rw [hb]

theorem evaluateList_eq_ok {env : Environment} {holes : List Bool} :
    ∀ {as : List Formula} {values : List Bool},
      (∀ a ∈ as, ∀ b, a.evaluate env = .ok b → a.hasQuantifiers = false ∧ a.hasHoles = false ∧
        a.truth env.interpretation holes = b) →
      evaluateList env as = .ok values →
      (∀ a ∈ as, a.hasQuantifiers = false ∧ a.hasHoles = false) ∧
        truthList env.interpretation holes as = values
  | [], values, _, hvalues => by
      obtain rfl : [] = values := by simpa [evaluateList] using hvalues
      exact ⟨by simp, rfl⟩
  | a :: as, values, ih, hvalues => by
      obtain ⟨v, vs, hv, hvs, rfl⟩ := evaluateList_cons.1 hvalues
      obtain ⟨hquant, hholes, htruth⟩ := ih a (List.mem_cons_self ..) v hv
      obtain ⟨hplain, htruths⟩ :=
        evaluateList_eq_ok (fun a' ha' => ih a' (List.mem_cons_of_mem _ ha')) hvs
      refine ⟨fun a' ha' => ?_, ?_⟩
      · rcases List.mem_cons.1 ha' with rfl | ha'
        · exact ⟨hquant, hholes⟩
        · exact hplain a' ha'
      · simp only [truthList]
        rw [htruth, htruths]

/-- A formula that could be evaluated has neither quantifiers nor holes, and its value is its truth
    under what the tables say. -/
theorem evaluate_eq_ok {env : Environment} {f : Formula} {b : Bool} (holes : List Bool)
    (h : f.evaluate env = .ok b) :
    f.hasQuantifiers = false ∧ f.hasHoles = false ∧ f.truth env.interpretation holes = b := by
  induction f generalizing b with
  | top => exact ⟨rfl, rfl, Except.ok.inj h⟩
  | bottom => exact ⟨rfl, rfl, Except.ok.inj h⟩
  | app name args ih =>
      obtain ⟨table, values, htable, hvalues, hb⟩ := evaluate_app_eq_ok.1 h
      obtain ⟨hplain, htruths⟩ := evaluateList_eq_ok (fun a ha b => ih a ha) hvalues
      refine ⟨?_, ?_, ?_⟩
      · simpa using fun a ha => (hplain a ha).1
      · simpa using fun a ha => (hplain a ha).2
      · simp only [truth]
        rw [htruths]
        simp [Environment.interpretation, htable, hb]
  | neg f ih =>
      obtain ⟨v, hv, h⟩ := bind_eq_ok.1 h
      obtain ⟨hquant, hholes, rfl⟩ := ih hv
      exact ⟨by simpa using hquant, by simpa using hholes, pure_eq_ok.1 h⟩
  | binary op l r ihl ihr =>
      obtain ⟨v, hv, h⟩ := bind_eq_ok.1 h
      obtain ⟨w, hw, h⟩ := bind_eq_ok.1 h
      obtain ⟨hquantl, hholesl, rfl⟩ := ihl hv
      obtain ⟨hquantr, hholesr, rfl⟩ := ihr hw
      exact ⟨by simp [hquantl, hquantr], by simp [hholesl, hholesr], pure_eq_ok.1 h⟩
  | quant q name body ih => exact absurd h (by simp [evaluate])
  | hole i => exact absurd h (by simp [evaluate])

theorem evaluateList_of_forall {env : Environment} :
    ∀ {as : List Formula},
      (∀ a ∈ as, a.evaluate env = .ok (a.truth env.interpretation [])) →
      evaluateList env as = .ok (truthList env.interpretation [] as)
  | [], _ => rfl
  | a :: _, h => evaluateList_cons.2 ⟨_, _, h a (List.mem_cons_self ..),
      evaluateList_of_forall fun a' ha' => h a' (List.mem_cons_of_mem _ ha'), rfl⟩

/-- A formula without quantifiers and holes is evaluated, if the environment has a long enough table
    for every use of a name. -/
theorem evaluate_of_tables {env : Environment} {f : Formula} (hquant : f.hasQuantifiers = false)
    (hholes : f.hasHoles = false)
    (htables : ∀ name count, f.Uses name count →
      ∃ table, env.get? name = some table ∧ rowCount count ≤ table.length) :
    f.evaluate env = .ok (f.truth env.interpretation []) := by
  induction f with
  | top => rfl
  | bottom => rfl
  | app name args ih =>
      have hquants : ∀ a ∈ args, a.hasQuantifiers = false := by simpa using hquant
      have hholess : ∀ a ∈ args, a.hasHoles = false := by simpa using hholes
      have hvalues := evaluateList_of_forall fun a ha =>
        ih a ha (hquants a ha) (hholess a ha) fun n count hn =>
          htables n count (uses_app.2 (Or.inr ⟨a, ha, hn⟩))
      obtain ⟨table, htable, hlength⟩ := htables name args.length (uses_app_self name args)
      have hindex : tableIndex (truthList env.interpretation [] args) < table.length := by
        have hlt := tableIndex_lt (truthList env.interpretation [] args)
        rw [truthList_eq, List.length_map] at hlt
        rw [truthList_eq]
        omega
      refine evaluate_app_eq_ok.2 ⟨table, _, htable, hvalues, ?_⟩
      simp [truth, Environment.interpretation, htable, List.getElem?_eq_getElem hindex]
  | neg f ih =>
      have hf := ih (by simpa using hquant) (by simpa using hholes)
        fun n count hn => htables n count (uses_neg.2 hn)
      exact bind_eq_ok.2 ⟨_, hf, rfl⟩
  | binary op l r ihl ihr =>
      simp only [hasQuantifiers_binary, Bool.or_eq_false_iff] at hquant
      simp only [hasHoles_binary, Bool.or_eq_false_iff] at hholes
      have hl := ihl hquant.1 hholes.1 fun n count hn => htables n count (uses_binary.2 (Or.inl hn))
      have hr := ihr hquant.2 hholes.2 fun n count hn => htables n count (uses_binary.2 (Or.inr hn))
      exact bind_eq_ok.2 ⟨_, hl, bind_eq_ok.2 ⟨_, hr, rfl⟩⟩
  | quant q name body ih => simp at hquant
  | hole i => simp at hholes

end Formula

end Deduction
