import Deduction.Context
import Mathlib.Data.List.Basic

set_option autoImplicit false

/-! # Abstraction and filling undo each other

Abstracting targets from a formula without holes gives a context that can be filled with the targets
again, without a capture, and the result is the formula. A target is only taken out where none of its
names is bound, which is just what filling asks of an argument. And it is taken out wherever that is
so: what is left of a target in the context has one of its names bound by a quantifier around it.

What an abstraction takes out is said in the same way for every connective. So a formula is
described as a root over a list of parts, with the names that are bound around the parts. -/

namespace Deduction

namespace Formula

/-! ## Formulas without holes -/

@[simp] theorem hasHoles_top : hasHoles .top = false := rfl

@[simp] theorem hasHoles_bottom : hasHoles .bottom = false := rfl

@[simp] theorem hasHoles_hole (i : Int) : hasHoles (.hole i) = true := rfl

@[simp] theorem hasHoles_app (name : String) (args : List Formula) :
    hasHoles (.app name args) = args.any hasHoles := by
  simp only [hasHoles, subformulas, List.any_cons, isHole, Bool.false_or, subformulasList_eq,
    List.any_flatMap]
  rfl

@[simp] theorem hasHoles_neg (f : Formula) : hasHoles (.neg f) = f.hasHoles := by
  simp [hasHoles, subformulas, isHole]

@[simp] theorem hasHoles_binary (op : Connective) (l r : Formula) :
    hasHoles (.binary op l r) = (l.hasHoles || r.hasHoles) := by
  simp [hasHoles, subformulas, isHole]

@[simp] theorem hasHoles_quant (q : Quantifier) (name : String) (body : Formula) :
    hasHoles (.quant q name body) = body.hasHoles := by
  simp [hasHoles, subformulas, isHole]

/-! ## Roots and parts -/

/-- The formula with its direct parts blanked. -/
def root (f : Formula) : Formula := f.mapChildren fun _ => .top

/-- The names that are bound around the direct parts, those in `bound` being bound around the
    formula. -/
def scope (bound : List String) : Formula → List String
  | .quant _ name _ => name :: bound
  | .app .. | .neg _ | .binary .. | .top | .bottom | .hole _ => bound

theorem induct_children {motive : Formula → Prop}
    (step : ∀ f : Formula, (∀ a ∈ f.children, motive a) → motive f) (f : Formula) : motive f := by
  induction f with
  | top => exact step _ (by simp [children])
  | bottom => exact step _ (by simp [children])
  | app name args ih => exact step _ ih
  | neg f ih => exact step _ (by simpa [children] using ih)
  | binary op l r ihl ihr => exact step _ (by simpa [children] using ⟨ihl, ihr⟩)
  | quant q name body ih => exact step _ (by simpa [children] using ih)
  | hole i => exact step _ (by simp [children])

theorem eq_of_root_eq {f g : Formula} (hroot : f.root = g.root)
    (hchildren : f.children = g.children) : f = g := by
  cases f <;> cases g <;> simp_all [root, mapChildren, children]

theorem scope_eq_of_root_eq {f g : Formula} (h : f.root = g.root) (bound : List String) :
    f.scope bound = g.scope bound := by
  cases f <;> cases g <;> simp_all [root, mapChildren, scope]

theorem isHole_eq_of_root_eq {f g : Formula} (h : f.root = g.root) : f.isHole = g.isHole := by
  cases f <;> cases g <;> simp_all [root, mapChildren, isHole]

theorem mem_subformulas_iff {f g : Formula} :
    g ∈ f.subformulas ↔ g = f ∨ ∃ a ∈ f.children, g ∈ a.subformulas := by
  cases f <;> simp [subformulas, children, subformulasList_eq]

theorem hasHoles_eq (f : Formula) : f.hasHoles = (f.isHole || f.children.any hasHoles) := by
  cases f <;> simp [isHole, children]

/-! ## Filling an abstraction with its targets -/

/-- The number of a target leads to the target, which equals the formula and is free in it. -/
theorem elementAt?_of_targetIndex? {targets : List Formula} {bound : List String} {f : Formula}
    {i : Nat} (h : targetIndex? targets bound f = some i) :
    elementAt? targets i = some f ∧ f.mentions bound = false := by
  obtain ⟨hi, hmatch, -⟩ := List.findIdx?_eq_some_iff_getElem.1 h
  simp only [Bool.and_eq_true, beq_iff_eq, Bool.not_eq_true'] at hmatch
  obtain ⟨hf, hmentions⟩ := hmatch
  rw [elementAt?_natCast, List.getElem?_eq_getElem hi, ← hf]
  rw [← hf] at hmentions
  exact ⟨rfl, hmentions⟩

/-- Filling the body with the arguments captures no name, those in `bound` being bound around it, and
    gives the formula. -/
def FillsTo (args : List Formula) (bound : List String) (f body : Formula) : Prop :=
  body.captures args bound = some false ∧ body.fillHoles args = some f

/-- If a formula is itself a target, its abstraction is a hole that reads it; otherwise the
    abstraction goes on in its parts. -/
theorem fillsTo_abstract_of_parts {targets : List Formula} {bound : List String} {f : Formula}
    (parts : targetIndex? targets bound f = none →
      FillsTo targets bound f (f.abstract targets bound)) :
    FillsTo targets bound f (f.abstract targets bound) := by
  cases h : targetIndex? targets bound f with
  | none => exact parts h
  | some i =>
      obtain ⟨helement, hmentions⟩ := elementAt?_of_targetIndex? h
      unfold abstract
      rw [h]
      refine ⟨?_, helement⟩
      simp only [captures, helement, Option.map_some, hmentions]

theorem fillsTo_abstractList {targets : List Formula} {bound : List String} :
    ∀ {as : List Formula}, (∀ a ∈ as, FillsTo targets bound a (a.abstract targets bound)) →
      capturesAny targets bound (abstractList targets bound as) = some false ∧
        fillHolesList targets (abstractList targets bound as) = some as
  | [], _ => ⟨rfl, rfl⟩
  | a :: as, h => by
      obtain ⟨hcap, hfill⟩ := h a (List.mem_cons_self ..)
      obtain ⟨hcaps, hfills⟩ :=
        fillsTo_abstractList fun a' ha' => h a' (List.mem_cons_of_mem a ha')
      simp only [abstractList, capturesAny, fillHolesList, hcap, hfill, hcaps, hfills]
      exact ⟨trivial, rfl⟩

theorem fillsTo_abstract (targets : List Formula) (f : Formula) (hf : f.hasHoles = false)
    (bound : List String) : FillsTo targets bound f (f.abstract targets bound) := by
  induction f generalizing bound with
  | top =>
      refine fillsTo_abstract_of_parts fun h => ?_
      unfold abstract
      rw [h]
      exact ⟨rfl, rfl⟩
  | bottom =>
      refine fillsTo_abstract_of_parts fun h => ?_
      unfold abstract
      rw [h]
      exact ⟨rfl, rfl⟩
  | app name args ih =>
      refine fillsTo_abstract_of_parts fun h => ?_
      have hargs : ∀ a ∈ args, a.hasHoles = false := by simpa using hf
      obtain ⟨hcaps, hfills⟩ := fillsTo_abstractList fun a ha => ih a ha (hargs a ha) bound
      unfold abstract
      rw [h]
      simp only [FillsTo, captures, fillHoles, hcaps, hfills]
      exact ⟨trivial, rfl⟩
  | neg f ih =>
      refine fillsTo_abstract_of_parts fun h => ?_
      obtain ⟨hcap, hfill⟩ := ih (by simpa using hf) bound
      unfold abstract
      rw [h]
      simp only [FillsTo, captures, fillHoles, hcap, hfill]
      exact ⟨trivial, rfl⟩
  | binary op l r ihl ihr =>
      refine fillsTo_abstract_of_parts fun h => ?_
      simp only [hasHoles_binary, Bool.or_eq_false_iff] at hf
      obtain ⟨hcapl, hfilll⟩ := ihl hf.1 bound
      obtain ⟨hcapr, hfillr⟩ := ihr hf.2 bound
      unfold abstract
      rw [h]
      simp only [FillsTo, captures, fillHoles, hcapl, hcapr, hfilll, hfillr]
      exact ⟨trivial, rfl⟩
  | quant q name body ih =>
      -- below the quantifier no target that mentions the name is taken out, so none is captured
      refine fillsTo_abstract_of_parts fun h => ?_
      obtain ⟨hcap, hfill⟩ := ih (by simpa using hf) (name :: bound)
      unfold abstract
      rw [h]
      simp only [FillsTo, captures, fillHoles, hcap, hfill]
      exact ⟨trivial, rfl⟩
  | hole i => simp at hf

/-! ## Occurrences -/

/-- The formula is the target, and none of the target's names is in `bound`. -/
def Stands (target : Formula) (bound : List String) (f : Formula) : Prop :=
  f = target ∧ target.mentions bound = false

instance (target : Formula) (bound : List String) (f : Formula) :
    Decidable (target.Stands bound f) :=
  inferInstanceAs (Decidable (_ ∧ _))

mutual

/-- Does the target occur in the formula at a place where none of its names is bound? The names in
    `bound` are bound around the formula. -/
def occursFree (f target : Formula) (bound : List String) : Bool :=
  decide (target.Stands bound f) ||
    match f with
    | .app _ args => occursFreeAny args target bound
    | .neg g => g.occursFree target bound
    | .binary _ l r => l.occursFree target bound || r.occursFree target bound
    | .quant _ name body => body.occursFree target (name :: bound)
    | .top => false
    | .bottom => false
    | .hole _ => false

def occursFreeAny (as : List Formula) (target : Formula) (bound : List String) : Bool :=
  match as with
  | [] => false
  | a :: as => a.occursFree target bound || occursFreeAny as target bound

end

variable {targets : List Formula} {target f : Formula} {bound : List String}

theorem occursFreeAny_eq (as : List Formula) :
    occursFreeAny as target bound = as.any (·.occursFree target bound) := by
  induction as with
  | nil => rfl
  | cons a as ih => simp [occursFreeAny, ih]

theorem occursFree_iff :
    f.occursFree target bound = true ↔
      target.Stands bound f ∨ ∃ a ∈ f.children, a.occursFree target (f.scope bound) = true := by
  cases f <;> simp [occursFree, children, scope, occursFreeAny_eq]

/-! ## What an abstraction leaves behind -/

theorem targetIndex?_eq_none_iff :
    targetIndex? targets bound f = none ↔ ∀ target ∈ targets, ¬ target.Stands bound f := by
  simp [targetIndex?, List.findIdx?_eq_none_iff, Stands]

theorem abstract_of_targetIndex? {i : Nat} (h : targetIndex? targets bound f = some i) :
    f.abstract targets bound = .hole i := by
  unfold abstract
  rw [h]

theorem abstractList_eq_map (as : List Formula) :
    abstractList targets bound as = as.map (abstract targets bound) := by
  induction as with
  | nil => rfl
  | cons a as ih => simp [abstractList, ih]

/-- Where no target stands the abstraction keeps the root and goes on in the parts. -/
theorem abstract_of_none_stands (h : ∀ target ∈ targets, ¬ target.Stands bound f) :
    (f.abstract targets bound).root = f.root ∧
      (f.abstract targets bound).children = f.children.map (abstract targets (f.scope bound)) := by
  unfold abstract
  rw [targetIndex?_eq_none_iff.2 h]
  cases f <;>
    simp [root, mapChildren, children, scope, abstractList_eq_map, Function.comp_def]

/-- An abstraction that takes nothing out leaves the formula as it is. -/
theorem abstract_eq_self (h : ∀ target ∈ targets, ¬ target.Stands bound f)
    (hchildren : ∀ a ∈ f.children, a.abstract targets (f.scope bound) = a) :
    f.abstract targets bound = f := by
  obtain ⟨hroot, hparts⟩ := abstract_of_none_stands h
  refine eq_of_root_eq hroot (hparts.trans ?_)
  rw [List.map_congr_left hchildren, List.map_id']

theorem abstract_eq_self_of_hasHoles (h : (f.abstract targets bound).hasHoles = false) :
    f.abstract targets bound = f := by
  induction f using induct_children generalizing bound with
  | step f ih =>
      cases hindex : targetIndex? targets bound f with
      | some i =>
          rw [abstract_of_targetIndex? hindex] at h
          exact absurd h (by simp)
      | none =>
          have hnone := targetIndex?_eq_none_iff.1 hindex
          refine abstract_eq_self hnone fun a ha => ih a ha ?_
          rw [hasHoles_eq, (abstract_of_none_stands hnone).2] at h
          simp only [Bool.or_eq_false_iff, List.any_map, List.any_eq_false, Function.comp] at h
          simpa using h.2 a ha

/-- Where targets have been taken out, they do not occur any more. -/
theorem occursFree_abstract (hmem : target ∈ targets) (htarget : target.hasHoles = false) :
    (f.abstract targets bound).occursFree target bound = false := by
  induction f using induct_children generalizing bound with
  | step f ih =>
      rw [Bool.eq_false_iff, Ne, occursFree_iff]
      cases hindex : targetIndex? targets bound f with
      | some i =>
          rw [abstract_of_targetIndex? hindex]
          rintro (⟨rfl, -⟩ | ⟨a, ha, -⟩)
          · exact absurd htarget (by simp)
          · exact absurd ha (by simp [children])
      | none =>
          have hnone := targetIndex?_eq_none_iff.1 hindex
          obtain ⟨hroot, hparts⟩ := abstract_of_none_stands hnone
          rintro (⟨hsame, hmentions⟩ | ⟨a, ha, hoccurs⟩)
          · -- the target has no holes, so nothing was taken out of the formula
            have hself : f.abstract targets bound = f :=
              abstract_eq_self_of_hasHoles (by rw [hsame, htarget])
            exact hnone target hmem ⟨hself.symm.trans hsame, hmentions⟩
          · rw [hparts] at ha
            obtain ⟨b, hb, rfl⟩ := List.mem_map.1 ha
            rw [scope_eq_of_root_eq hroot, ih b hb] at hoccurs
            exact absurd hoccurs (by simp)

end Formula

namespace Context

/-- A context that was made from a formula gives it back when it is filled with the targets. -/
theorem fill_ofTargets {f : Formula} (hf : f.hasHoles = false) (targets : List Formula) :
    (ofTargets f targets).fill targets = .ok f := by
  obtain ⟨hcap, hfill⟩ := Formula.fillsTo_abstract targets f hf []
  simp only [fill, captures, ofTargets, hcap, hfill]

/-- Abstraction is exact. Nothing is captured when the targets are put back, the formula comes out
    again, and in the context no target is left at a place where none of its names is bound. -/
theorem ofTargets_exact {f : Formula} {targets : List Formula} (hf : f.hasHoles = false)
    (htargets : ∀ target ∈ targets, target.hasHoles = false) :
    (ofTargets f targets).captures targets = some false ∧
      (ofTargets f targets).fill targets = .ok f ∧
      ∀ target ∈ targets, (ofTargets f targets).body.occursFree target [] = false := by
  refine ⟨(Formula.fillsTo_abstract targets f hf []).1, fill_ofTargets hf targets, ?_⟩
  exact fun target hmem => Formula.occursFree_abstract hmem (htargets target hmem)

/-- The targets `x` and `P(x)` are one inside the other, and the second one is given twice. Below the
    quantifier they stay, while `y` is taken out there, too. -/
theorem ofTargets_exact_nested :
    let px := Formula.app "P" [.var "x"]
    let f := Formula.and (.quant .all "x" (.or px (.var "y"))) (.implies px (.neg (.var "x")))
    let targets := [.var "x", px, px, .var "y"]
    let c := ofTargets f targets
    c.body = .and (.quant .all "x" (.or px (.hole 3))) (.implies (.hole 1) (.neg (.hole 0))) ∧
      c.captures targets = some false ∧ c.fill targets = .ok f ∧
      ∀ target ∈ targets, c.body.occursFree target [] = false := by
  intro px f targets c
  exact ⟨by decide, ofTargets_exact (by decide) (by decide)⟩

end Context

end Deduction
