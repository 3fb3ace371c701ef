import Deduction.Derivation.Ref
import Deduction.Formula.Printer
import Deduction.Value

set_option autoImplicit false

/-! # Derivations

A derivation is a document: premises, and then lines. A line is a step, which cites a rule and what
it depends on, or a subproof, which has premises and lines of its own. Formulas may be missing, as in
a document that is being written.

The lines of a scope are one value, `Lines`, in which a step is followed by the rest of the lines and
a subproof by its own lines and the rest. So every function on derivations recurses on `Lines`
alone. -/

namespace Deduction

/-! ## Contents -/

/-- What a step says: its conclusion, the rule it cites, and the lines and subproofs it depends on.
    A rule is cited by its name; other data in its place, which a document may hold, cites none that
    there is. The two lists stand for sets: order and repetition in them mean nothing. -/
structure Step where
  conclusion : Option Formula := none
  rule : Value := .null
  lineDeps : List Ref := []
  subproofDeps : List Ref := []
deriving DecidableEq

namespace Step

/-- A step that says nothing yet. -/
def blank : Step := {}

/-- A step that cites the given references, each once. -/
def citing (conclusion : Option Formula) (rule : Value) (lineDeps subproofDeps : List Ref) : Step :=
  ⟨conclusion, rule, lineDeps.eraseDups, subproofDeps.eraseDups⟩

/-- What is shown in place of a rule. -/
def noRuleText : String := "(no rule)"

/-- A short description of the step. -/
def name (s : Step) : String :=
  (match s.conclusion with
    | none => "?"
    | some f => f.render) ++ " [" ++ (if s.rule.isNothing then noRuleText else s.rule.display) ++ "]"

end Step

structure Premise where
  id : Int
  formula : Option Formula
deriving DecidableEq

def Premise.ref (p : Premise) : Ref := .premise p.id

/-! ## Scopes -/

/-- The lines of a scope, in order. -/
inductive Lines where
  | nil
  | step (id : Int) (content : Step) (rest : Lines)
  | subproof (id : Int) (premises : List Premise) (body : Lines) (rest : Lines)
deriving DecidableEq

/-- Premises, and the lines that follow them. -/
structure Scope where
  premises : List Premise
  lines : Lines
deriving DecidableEq

/-- A derivation: its outermost scope, the number that the next new part gets, and the line that is
    held for a change, if any. -/
structure Derivation where
  root : Scope
  nextId : Int
  held : Option Ref
deriving DecidableEq

namespace Lines

/-- The lines themselves, without what is nested in them. -/
def refs : Lines → List Ref
  | .nil => []
  | .step id _ rest => .step id :: rest.refs
  | .subproof id _ _ rest => .subproof id :: rest.refs

/-- Lines behind other lines. -/
def append : Lines → Lines → Lines
  | .nil, more => more
  | .step id content rest, more => .step id content (rest.append more)
  | .subproof id premises body rest, more => .subproof id premises body (rest.append more)

/-- The content of a step, at any depth. -/
def findStep? (id : Int) : Lines → Option Step
  | .nil => none
  | .step i content rest => if i = id then some content else rest.findStep? id
  | .subproof _ _ body rest =>
    match body.findStep? id with
    | some content => some content
    | none => rest.findStep? id

/-- A premise, at any depth. -/
def findPremise? (id : Int) : Lines → Option Premise
  | .nil => none
  | .step _ _ rest => rest.findPremise? id
  | .subproof _ premises body rest =>
    match premises.find? (·.id == id) with
    | some p => some p
    | none =>
      match body.findPremise? id with
      | some p => some p
      | none => rest.findPremise? id

/-- The scope of a subproof, at any depth. -/
def findScope? (id : Int) : Lines → Option Scope
  | .nil => none
  | .step _ _ rest => rest.findScope? id
  | .subproof i premises body rest =>
    if i = id then some ⟨premises, body⟩
    else
      match body.findScope? id with
      | some scope => some scope
      | none => rest.findScope? id

/-- The subproofs around a reference, the outermost first. -/
def pathTo? (r : Ref) : Lines → Option (List Ref)
  | .nil => none
  | .step id _ rest => if r = .step id then some [] else rest.pathTo? r
  | .subproof id premises body rest =>
    if r = .subproof id then some []
    else if r ∈ premises.map Premise.ref then some [.subproof id]
    else
      match body.pathTo? r with
      | some path => some (.subproof id :: path)
      | none => rest.pathTo? r

end Lines

namespace Scope

/-- The premises of the scope itself. -/
def premiseRefs (s : Scope) : List Ref := s.premises.map Premise.ref

/-- The steps of the scope itself, without its subproofs. -/
def directSteps (s : Scope) : List Ref := s.lines.refs.filter fun r => !r.isSubproof

/-- The number of premises and lines of the scope itself. -/
def size (s : Scope) : Nat := s.premises.length + s.lines.refs.length

end Scope

namespace Derivation

/-! ## New derivations -/

/-- A derivation with a single premise, which may be blank. -/
def ofPremise (formula : Option Formula) : Derivation :=
  ⟨⟨[⟨1, formula⟩], .nil⟩, 2, none⟩

/-- The document that an editor opens: one blank premise and one blank step. -/
def blank : Derivation := ⟨⟨[⟨1, none⟩], .step 2 .blank .nil⟩, 3, none⟩

/-! ## Look-up -/

/-- The subproofs around a reference, the outermost first. -/
def pathTo? (d : Derivation) (r : Ref) : Option (List Ref) :=
  if r ∈ d.root.premiseRefs then some [] else d.root.lines.pathTo? r

/-- The subproof directly around a reference; none at the outermost level or if it leads nowhere. -/
def parentOf (d : Derivation) (r : Ref) : Option Ref := (d.pathTo? r).bind List.getLast?

/-- The number of subproofs around a reference. -/
def depthOf (d : Derivation) (r : Ref) : Option Nat := (d.pathTo? r).map List.length

def premise? (d : Derivation) : Ref → Option Premise
  | .premise id =>
    match d.root.premises.find? (·.id == id) with
    | some p => some p
    | none => d.root.lines.findPremise? id
  | .step _ | .subproof _ => none

def step? (d : Derivation) : Ref → Option Step
  | .step id => d.root.lines.findStep? id
  | .premise _ | .subproof _ => none

def scope? (d : Derivation) : Ref → Option Scope
  | .subproof id => d.root.lines.findScope? id
  | .premise _ | .step _ => none

/-- The formula that a line asserts; none if the line is blank or gone. -/
def formulaOf (d : Derivation) : Ref → Option Formula
  | .premise id => (d.premise? (.premise id)).bind Premise.formula
  | .step id => (d.step? (.step id)).bind Step.conclusion
  | .subproof _ => none

/-- A step was asked for that is not there. -/
structure DanglingReference where
  ref : Option Ref

def DanglingReference.message (e : DanglingReference) : String :=
  Ref.renderOption e.ref ++ " does not exist in this proof"

/-- The content of a step that has to be there. -/
def requireStep (d : Derivation) (r : Option Ref) : Except DanglingReference Step :=
  match r.bind d.step? with
  | some content => .ok content
  | none => .error ⟨r⟩

end Derivation

end Deduction
