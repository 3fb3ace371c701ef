set_option autoImplicit false

/-! # Formulas

Formulas of propositional and predicate logic as immutable trees. A name stands alone or is applied
to arguments, which are formulas again; quantifiers bind a name. Two formulas are equal when they
are built alike: nothing is normalised, so `P & Q` and `Q & P` differ.

Holes are numbered argument places. The reader of formulas never makes one: they occur in the
bodies of contexts, the values of applied names in a pattern.

Because an application nests a list of formulas, each operation is a pair of functions, one on
formulas and one on lists of them, and `Formula.induct` gives induction in the usual form. -/

namespace Deduction

/-- The binary connectives. -/
inductive Connective where
  | and | or | implies | iff
deriving DecidableEq

inductive Quantifier where
  | all | ex
deriving DecidableEq

inductive Formula where
  | top
  | bottom
  | app (name : String) (args : List Formula)
  | neg (operand : Formula)
  | binary (op : Connective) (left right : Formula)
  | quant (q : Quantifier) (name : String) (body : Formula)
  | hole (index : Int)

namespace Formula

/-! ## Short forms -/

/-- A name without arguments. -/
@[match_pattern] abbrev var (name : String) : Formula := .app name []

@[match_pattern] abbrev and (left right : Formula) : Formula := .binary .and left right

@[match_pattern] abbrev or (left right : Formula) : Formula := .binary .or left right

@[match_pattern] abbrev implies (left right : Formula) : Formula := .binary .implies left right

@[match_pattern] abbrev iff (left right : Formula) : Formula := .binary .iff left right

/-! ## Induction -/

/-- Structural induction: for an application the property may be assumed of every argument. -/
@[elab_as_elim, induction_eliminator]
theorem induct {motive : Formula → Prop}
    (top : motive .top)
    (bottom : motive .bottom)
    (app : ∀ name args, (∀ a ∈ args, motive a) → motive (.app name args))
    (neg : ∀ f, motive f → motive (.neg f))
    (binary : ∀ op l r, motive l → motive r → motive (.binary op l r))
    (quant : ∀ q name body, motive body → motive (.quant q name body))
    (hole : ∀ i, motive (.hole i)) :
    ∀ f, motive f
  | .top => top
  | .bottom => bottom
  | .app name args =>
    app name args fun a _ => induct top bottom app neg binary quant hole a
  | .neg f => neg f (induct top bottom app neg binary quant hole f)
  | .binary op l r =>
    binary op l r (induct top bottom app neg binary quant hole l)
      (induct top bottom app neg binary quant hole r)
  | .quant q name body => quant q name body (induct top bottom app neg binary quant hole body)
  | .hole i => hole i

/-! ## Equality -/

mutual

/-- Are two formulas built alike? -/
def beq : Formula → Formula → Bool
  | .top, .top => true
  | .bottom, .bottom => true
  | .app n as, .app m bs => n == m && beqList as bs
  | .neg f, .neg g => beq f g
  | .binary o f g, .binary p h k => o == p && beq f h && beq g k
  | .quant q x f, .quant r y g => q == r && x == y && beq f g
  | .hole i, .hole j => i == j
  | _, _ => false

def beqList : List Formula → List Formula → Bool
  | [], [] => true
  | a :: as, b :: bs => beq a b && beqList as bs
  | _, _ => false

end

mutual

theorem beq_eq_true : ∀ f g : Formula, beq f g = true ↔ f = g
  | .top, g => by cases g <;> simp [beq]
  | .bottom, g => by cases g <;> simp [beq]
  | .app n as, g => by cases g <;> simp [beq, beqList_eq_true as]
  | .neg f, g => by cases g <;> simp [beq, beq_eq_true f]
  | .binary o f h, g => by cases g <;> simp [beq, beq_eq_true f, beq_eq_true h, and_assoc]
  | .quant q x f, g => by cases g <;> simp [beq, beq_eq_true f, and_assoc]
  | .hole i, g => by cases g <;> simp [beq]

theorem beqList_eq_true : ∀ as bs : List Formula, beqList as bs = true ↔ as = bs
  | [], bs => by cases bs <;> simp [beqList]
  | a :: as, bs => by cases bs <;> simp [beqList, beq_eq_true a, beqList_eq_true as]

end

instance : DecidableEq Formula := fun f g => decidable_of_iff _ (beq_eq_true f g)

instance : Inhabited Formula := ⟨.top⟩

/-! ## Traversal -/

/-- The direct parts of a formula, left to right. -/
def children : Formula → List Formula
  | .app _ args => args
  | .neg f => [f]
  | .binary _ l r => [l, r]
  | .quant _ _ body => [body]
  | .top | .bottom | .hole _ => []

/-- The formula with a function applied to each direct part. -/
def mapChildren (fn : Formula → Formula) : Formula → Formula
  | .app name args => .app name (args.map fn)
  | .neg f => .neg (fn f)
  | .binary op l r => .binary op (fn l) (fn r)
  | .quant q name body => .quant q name (fn body)
  | .top => .top
  | .bottom => .bottom
  | .hole i => .hole i

mutual

/-- The formula itself and all its parts, each before its own parts. -/
def subformulas : Formula → List Formula
  | .app name args => .app name args :: subformulasList args
  | .neg f => .neg f :: subformulas f
  | .binary op l r => .binary op l r :: (subformulas l ++ subformulas r)
  | .quant q name body => .quant q name body :: subformulas body
  | .top => [.top]
  | .bottom => [.bottom]
  | .hole i => [.hole i]

def subformulasList : List Formula → List Formula
  | [] => []
  | a :: as => subformulas a ++ subformulasList as

end

theorem subformulasList_eq (as : List Formula) : subformulasList as = as.flatMap subformulas := by
  induction as with
  | nil => rfl
  | cons a as ih => simp [subformulasList, ih]

def isHole : Formula → Bool
  | .hole _ => true
  | _ => false

/-- Does a hole occur in the formula? -/
def hasHoles (f : Formula) : Bool := f.subformulas.any isHole

/-- A name without arguments, which a pattern lets stand for any formula. -/
def isMetavariable : Formula → Bool
  | .app _ args => args.isEmpty
  | _ => false

/-- A name with arguments, which a pattern lets stand for a context around them. -/
def isFunctional : Formula → Bool
  | .app _ args => !args.isEmpty
  | _ => false

/-- The number of arguments at the root of a formula. -/
def argumentCount : Formula → Nat
  | .app _ args => args.length
  | _ => 0

end Formula

end Deduction
