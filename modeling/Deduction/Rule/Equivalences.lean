import Deduction.Rule.Basic

set_option autoImplicit false

/-! # The equivalence rules

The rules of the built-in catalog, in four groups. Every name in a clause is open to any formula, and
the one applied name, in the rule of substitution, to any context with one hole. -/

namespace Deduction.Equivalences

/-! ## Names of the patterns -/

def p : Formula := .var "P"

def q : Formula := .var "Q"

def r : Formula := .var "R"

def phi : Formula := .var "phi"

def psi : Formula := .var "psi"

def lam : Formula := .var "lambda"

/-- A context around a formula. -/
def inContext (f : Formula) : Formula := .app "S" [f]

/-! ## Boolean equivalences -/

def doubleNegation : Rule where
  name := "DOUBLE_NEGATION"
  clauses := [
    ⟨.neg (.neg p), p⟩]

def distribution : Rule where
  name := "DISTRIBUTION"
  clauses := [
    ⟨.or (.and p q) (.and p r), .and p (.or q r)⟩,
    ⟨.and (.or p q) (.or p r), .or p (.and q r)⟩]

def identity : Rule where
  name := "IDENTITY"
  clauses := [
    ⟨.and phi .top, phi⟩,
    ⟨.or phi .bottom, phi⟩]

def annihilation : Rule where
  name := "ANNIHILATION"
  clauses := [
    ⟨.and phi .bottom, .bottom⟩,
    ⟨.or phi .top, .top⟩]

def inverse : Rule where
  name := "INVERSE"
  clauses := [
    ⟨.neg .top, .bottom⟩,
    ⟨.neg .bottom, .top⟩]

/-! ## Conditional equivalences -/

def conditionalAbsorption : Rule where
  name := "CONDITIONAL_ABSORPTION"
  clauses := [
    ⟨.and phi (.implies (.neg phi) psi), phi⟩,
    ⟨.and psi (.implies phi psi), psi⟩]

def conditionalComplement : Rule where
  name := "CONDITIONAL_COMPLEMENT"
  clauses := [
    ⟨.implies phi phi, .top⟩]

def conditionalIdentity : Rule where
  name := "CONDITIONAL_IDENTITY"
  clauses := [
    ⟨.implies phi .bottom, .neg phi⟩,
    ⟨.implies .top phi, phi⟩]

def conditionalAnnihilation : Rule where
  name := "CONDITIONAL_ANNIHILATION"
  clauses := [
    ⟨.implies phi .top, .top⟩,
    ⟨.implies .bottom phi, .top⟩]

def conditionalImplication : Rule where
  name := "CONDITIONAL_IMPLICATION"
  clauses := [
    ⟨.implies phi psi, .or (.neg phi) psi⟩,
    ⟨.neg (.implies phi psi), .and phi (.neg psi)⟩]

def conditionalContraposition : Rule where
  name := "CONDITIONAL_CONTRAPOSITION"
  clauses := [
    ⟨.implies (.neg phi) (.neg psi), .implies psi phi⟩]

def conditionalExportation : Rule where
  name := "CONDITIONAL_EXPORTATION"
  clauses := [
    ⟨.implies phi (.implies psi lam), .implies (.and phi psi) lam⟩]

def conditionalDistribution : Rule where
  name := "CONDITIONAL_DISTRIBUTION"
  clauses := [
    ⟨.implies phi (.and psi lam), .and (.implies phi psi) (.implies phi lam)⟩,
    ⟨.implies (.or phi psi) lam, .and (.implies phi lam) (.implies psi lam)⟩,
    ⟨.implies phi (.or psi lam), .or (.implies phi psi) (.implies phi lam)⟩,
    ⟨.implies (.and phi psi) lam, .or (.implies phi lam) (.implies psi lam)⟩]

def conditionalReduction : Rule where
  name := "CONDITIONAL_REDUCTION"
  clauses := [
    ⟨.and phi (.implies phi psi), .and phi psi⟩,
    ⟨.and (.neg psi) (.implies phi psi), .and (.neg psi) (.neg phi)⟩]

def knightsAndKnaves : Rule where
  name := "KNIGHTS_AND_KNAVES"
  clauses := [
    ⟨.iff phi (.and phi psi), .implies phi psi⟩,
    ⟨.iff phi (.or phi psi), .implies psi phi⟩]

def conditionalIdempotence : Rule where
  name := "CONDITIONAL_IDEMPOTENCE"
  clauses := [
    ⟨.implies phi (.neg phi), .neg phi⟩,
    ⟨.implies (.neg phi) phi, phi⟩]

/-! ## Biconditional equivalences -/

def biconditionalEquivalence : Rule where
  name := "BICONDITIONAL_EQUIVALENCE"
  clauses := [
    ⟨.and (.implies phi psi) (.implies psi phi), .iff phi psi⟩,
    ⟨.or (.and phi psi) (.and (.neg phi) (.neg psi)), .iff phi psi⟩]

def biconditionalCommutation : Rule where
  name := "BICONDITIONAL_COMMUTATION"
  clauses := [
    ⟨.iff phi psi, .iff psi phi⟩]

def biconditionalAssociation : Rule where
  name := "BICONDITIONAL_ASSOCIATION"
  clauses := [
    ⟨.iff phi (.iff psi lam), .iff (.iff phi psi) lam⟩]

def biconditionalReduction : Rule where
  name := "BICONDITIONAL_REDUCTION"
  clauses := [
    ⟨.and phi (.iff phi psi), .and phi psi⟩,
    ⟨.and (.neg phi) (.iff phi psi), .and (.neg phi) (.neg psi)⟩]

def biconditionalComplement : Rule where
  name := "BICONDITIONAL_COMPLEMENT"
  clauses := [
    ⟨.iff phi phi, .top⟩,
    ⟨.iff phi (.neg phi), .bottom⟩]

def biconditionalIdentity : Rule where
  name := "BICONDITIONAL_IDENTITY"
  clauses := [
    ⟨.iff phi .bottom, .neg phi⟩,
    ⟨.iff phi .top, phi⟩]

def biconditionalNegation : Rule where
  name := "BICONDITIONAL_NEGATION"
  clauses := [
    ⟨.iff (.neg phi) psi, .neg (.iff phi psi)⟩,
    ⟨.iff phi (.neg psi), .neg (.iff phi psi)⟩]

def biconditionalSubstitution : Rule where
  name := "BICONDITIONAL_SUBSTITUTION"
  clauses := [
    ⟨.and (.iff phi psi) (inContext phi), .and (.iff phi psi) (inContext psi)⟩]

/-! ## Reductions against the constants -/

def conjunction : Rule where
  name := "CONJUNCTION"
  clauses := [
    ⟨.and phi .top, phi⟩,
    ⟨.and phi .bottom, .bottom⟩]

def disjunction : Rule where
  name := "DISJUNCTION"
  clauses := [
    ⟨.or phi .bottom, phi⟩,
    ⟨.or phi .top, .top⟩]

def negation : Rule where
  name := "NEGATION"
  clauses := [
    ⟨.neg .top, .bottom⟩,
    ⟨.neg .bottom, .top⟩]

def bicondReduction : Rule where
  name := "BICOND_REDUCTION"
  clauses := [
    ⟨.iff phi .bottom, .neg phi⟩,
    ⟨.iff phi .top, phi⟩]

def condReduction : Rule where
  name := "COND_REDUCTION"
  clauses := [
    ⟨.implies phi .top, .top⟩,
    ⟨.implies .bottom phi, .top⟩,
    ⟨.implies phi .bottom, .neg phi⟩,
    ⟨.implies .top phi, phi⟩]

/-! ## The groups -/

/-- The rules of each group, in the order of the menu. -/
def groupedRules : List (String × List Rule) := [
  ("Boolean Equivalence", [
    doubleNegation, distribution, identity, annihilation, inverse]),
  ("Conditional Equivalence", [
    conditionalAbsorption, conditionalComplement, conditionalIdentity, conditionalAnnihilation,
    conditionalImplication, conditionalContraposition, conditionalExportation,
    conditionalDistribution, conditionalReduction, knightsAndKnaves, conditionalIdempotence]),
  ("Biconditional Equivalence", [
    biconditionalEquivalence, biconditionalCommutation, biconditionalAssociation,
    biconditionalReduction, biconditionalComplement, biconditionalIdentity,
    biconditionalNegation, biconditionalSubstitution]),
  ("Reduction", [
    conjunction, disjunction, negation, bicondReduction, condReduction])]

/-- All rules, in the order of the menu. -/
def rules : List Rule := groupedRules.flatMap Prod.snd

/-- The names of the rules of each group. -/
def groups : List (String × List String) :=
  groupedRules.map fun (group, members) => (group, members.map Rule.name)

end Deduction.Equivalences
