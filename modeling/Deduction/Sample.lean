import Deduction.Derivation.Basic
import Deduction.Rule.Equivalences

set_option autoImplicit false

/-! # Sample derivations -/

namespace Deduction

/-- A derivation to show, with a name and a description. -/
structure Sample where
  name : String
  description : String
  derivation : Derivation

namespace Sample

/-- A step by one of the equivalence rules. -/
def stepBy (rule : Rule) (conclusion : Formula) (lineDeps : List Ref) : Step :=
  { conclusion := some conclusion, rule := .text rule.name, lineDeps }

def p : Formula := .var "P"

def q : Formula := .var "Q"

def r : Formula := .var "R"

def s : Formula := .var "S"

def a : Formula := .var "A"

def b : Formula := .var "B"

/-- From `~~Q` follows `Q`, but not `~Q`. -/
def doubleNegation : Sample where
  name := "double_negation"
  description := "Double Negation: ~~Q gives Q, not ~Q"
  derivation := {
    root := {
      premises := [⟨1, some (.neg (.neg q))⟩]
      lines :=
        .step 2 (stepBy Equivalences.doubleNegation q [.premise 1]) <|
        .step 3 (stepBy Equivalences.doubleNegation (.neg q) [.premise 1]) .nil }
    nextId := 4
    held := none }

/-- `P -> Q` turned into a disjunction and back, and once wrongly. -/
def implication : Sample where
  name := "implication"
  description := "Conditional Implication in both directions"
  derivation := {
    root := {
      premises := [⟨1, some (.implies p q)⟩]
      lines :=
        .step 2 (stepBy Equivalences.conditionalImplication (.or (.neg p) q) [.premise 1]) <|
        .step 3 (stepBy Equivalences.conditionalImplication (.or p q) [.premise 1]) <|
        .step 4 (stepBy Equivalences.conditionalImplication (.implies p q) [.step 2]) .nil }
    nextId := 5
    held := none }

/-- `Q` put for `P` inside `P & R`, given `P <-> Q`. -/
def substitution : Sample where
  name := "substitution"
  description := "Biconditional Substitution across two cited premises"
  derivation := {
    root := {
      premises := [⟨1, some (.iff p q)⟩, ⟨2, some (.and p r)⟩]
      lines :=
        .step 3 (stepBy Equivalences.biconditionalSubstitution (.and (.iff p q) (.and q r))
          [.premise 1, .premise 2]) <|
        .step 4 (stepBy Equivalences.biconditionalSubstitution (.and (.iff p q) (.and q s))
          [.premise 1, .premise 2]) .nil }
    nextId := 5
    held := none }

/-- An assumption that is cited from outside its subproof, beside an outer premise that is cited from
    inside. -/
def scoping : Sample where
  name := "scoping"
  description := "Subproof scoping: assumptions are not visible outside their subproof"
  derivation := {
    root := {
      premises := [⟨1, some (.and a .top)⟩]
      lines :=
        .subproof 2 [⟨3, some (.neg (.neg b))⟩]
          (.step 4 (stepBy Equivalences.doubleNegation b [.premise 3]) <|
            .step 5 (stepBy Equivalences.identity a [.premise 1]) .nil) <|
        .step 6 (stepBy Equivalences.doubleNegation b [.premise 3]) <|
        .step 7 (stepBy Equivalences.doubleNegation a [.premise 1]) <|
        .step 8 .blank .nil }
    nextId := 9
    held := none }

/-- The document that an editor opens. -/
def empty : Sample where
  name := "empty"
  description := "The blank document: one empty premise and one empty step"
  derivation := .blank

/-- All samples. -/
def all : List Sample := [doubleNegation, implication, substitution, scoping, empty]

/-- The sample of a name. -/
def find? (name : String) : Option Sample := all.find? (·.name == name)

end Sample

end Deduction
