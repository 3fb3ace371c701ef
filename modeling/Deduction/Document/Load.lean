import Deduction.Derivation.Order
import Deduction.Document.Basic
import Deduction.Formula.Parser

set_option autoImplicit false

/-! # Loading and saving

`load` builds a derivation from a document. It goes through the document once, numbering the entries
from one in document order, reading formulas and collecting labels, and then resolves what the steps
cite, so that a step may cite lines that come later. The first defect ends it.

`dump` gives the document of a derivation, in which every entry is labelled by its reference. -/

namespace Deduction

/-- Why a document is no derivation. -/
inductive LoadError where
  | noPremises
  | unparsable (text : String) (e : ParseError)
  | duplicate (label : Label)
  | unknownLine (label : Option Label)
  | unknownSubproof (label : Option Label)
  | defect (d : Defect)
deriving DecidableEq

def LoadError.message : LoadError → String
  | .noPremises => "a proof needs at least one top-level premise"
  | .unparsable text e => "cannot parse " ++ Text.quote text ++ ": " ++ e.message
  | .duplicate label => "duplicate id " ++ label.render
  | .unknownLine label => "unknown line dependency " ++ Label.renderOption label
  | .unknownSubproof label => "unknown subproof dependency " ++ Label.renderOption label
  | .defect .notAList => "a list was expected"
  | .defect .notAText => "a text was expected"
  | .defect .notARecord => "a record was expected"
  | .defect (.emptyCollection v) =>
    "cannot parse " ++ v.render ++ ": " ++ ParseError.message ⟨1, .emptyExpression⟩
  | .defect .notALabel => "a label was expected"
  | .defect .noFirst => "a list was expected, but a record was found"
  | .defect .noField => "a record was expected, but a text or a list was found"

namespace Document

/-! ## Entries -/

/-- What the labels read so far stand for. -/
abbrev Labels := List (Label.Key × Ref)

def Labels.get? (labels : Labels) (label : Label) : Option Ref := labels.lookup label.key

/-- The number that the next entry gets, and the labels so far. -/
structure Progress where
  nextId : Int
  labels : Labels

/-- A field without its defects. -/
def require {α : Type} (entry : Entry α) : Except LoadError (Option α) := entry.mapError .defect

/-- The formula of an entry. The empty text is a blank formula. -/
def loadFormula (entry : Entry String) : Except LoadError (Option Formula) := do
  match ← require entry with
  | none => return none
  | some text =>
    if text = "" then return none
    else
      let f ← (Formula.parse text).mapError (.unparsable text)
      return some f

/-- Takes the next number for an entry whose reference that makes `r`, and notes its label. -/
def Progress.register (p : Progress) (entry : Entry Label) (r : Ref) :
    Except LoadError Progress := do
  match ← require entry with
  | none => return ⟨p.nextId + 1, p.labels⟩
  | some label =>
    match p.labels.get? label with
    | some _ => .error (.duplicate label)
    | none => return ⟨p.nextId + 1, p.labels ++ [(label.key, r)]⟩

/-! ## Reading the entries in order -/

def loadPremises (p : Progress) : List PremiseEntry → Except LoadError (List Premise × Progress)
  | [] => .ok ([], p)
  | entry :: entries => do
    let formula ← loadFormula entry.text
    let premise : Premise := ⟨p.nextId, formula⟩
    let p ← p.register entry.label premise.ref
    let (premises, p) ← loadPremises p entries
    return (premise :: premises, p)

/-- The lines of a document, with steps that cite nothing yet. -/
def loadLines (p : Progress) : LineEntries → Except LoadError (Lines × Progress)
  | .nil => .ok (.nil, p)
  | .step entry rest => do
    let conclusion ← loadFormula entry.conclusion
    let id := p.nextId
    let p ← p.register entry.label (.step id)
    let (lines, p) ← loadLines p rest
    return (.step id { conclusion, rule := entry.rule } lines, p)
  | .subproof label premises body rest => do
    let id := p.nextId
    let p ← p.register label (.subproof id)
    let (premises, p) ← loadPremises p premises
    let (body, p) ← loadLines p body
    let (lines, p) ← loadLines p rest
    return (.subproof id premises body lines, p)
  | .defect d => .error (.defect d)

/-! ## Resolving what steps cite -/

/-- The reference of a label, which has to be of the right kind. -/
def resolve (labels : Labels) (ofKind : Ref → Bool) (unknown : Option Label → LoadError)
    (entry : Entry Label) : Except LoadError Ref := do
  let label ← require entry
  match label.bind labels.get? with
  | none => .error (unknown label)
  | some r => if ofKind r then .ok r else .error (unknown label)

/-- What a step cites. -/
def resolveStep (labels : Labels) (entry : StepEntry) (content : Step) : Except LoadError Step := do
  let lineDeps ← entry.lineDeps.mapM (resolve labels Ref.isLine .unknownLine)
  let subproofDeps ← entry.subproofDeps.mapM (resolve labels Ref.isSubproof .unknownSubproof)
  return .citing content.conclusion content.rule lineDeps subproofDeps

/-- The lines with what their steps cite, which the entries they come from say. -/
def resolveLines (labels : Labels) : LineEntries → Lines → Except LoadError Lines
  | .step entry entries, .step id content rest => do
    let content ← resolveStep labels entry content
    let rest ← resolveLines labels entries rest
    return .step id content rest
  | .subproof _ _ inner entries, .subproof id premises body rest => do
    let body ← resolveLines labels inner body
    let rest ← resolveLines labels entries rest
    return .subproof id premises body rest
  | _, lines => .ok lines

/-- Builds the derivation of a document. -/
def load (d : Document) : Except LoadError Derivation := do
  if d.premises.isEmpty then .error .noPremises
  else
    let (premises, p) ← loadPremises ⟨1, []⟩ d.premises
    let (lines, p) ← loadLines p d.lines
    let lines ← resolveLines p.labels d.lines lines
    return ⟨⟨premises, lines⟩, p.nextId, none⟩

/-- Builds a derivation from data. -/
def loadValue (v : Value) : Except LoadError Derivation := do
  let d ← (ofValue v).mapError .defect
  d.load

/-! ## Saving -/

def dumpLabel (r : Ref) : Entry Label := .ok (some (.text r.label))

def dumpPremise (p : Premise) : PremiseEntry :=
  ⟨dumpLabel p.ref, .ok (p.formula.map Formula.render)⟩

def dumpStep (id : Int) (content : Step) : StepEntry where
  label := dumpLabel (.step id)
  conclusion := .ok (content.conclusion.map Formula.render)
  rule := content.rule
  lineDeps := (Ref.sorted content.lineDeps).map dumpLabel
  subproofDeps := (Ref.sorted content.subproofDeps).map dumpLabel

def dumpLines : Lines → LineEntries
  | .nil => .nil
  | .step id content rest => .step (dumpStep id content) (dumpLines rest)
  | .subproof id premises body rest =>
    .subproof (dumpLabel (.subproof id)) (premises.map dumpPremise) (dumpLines body)
      (dumpLines rest)

/-- The document of a derivation. -/
def ofDerivation (d : Derivation) : Document :=
  ⟨d.root.premises.map dumpPremise, dumpLines d.root.lines⟩

end Document

namespace Derivation

/-- The document of a derivation, as data. -/
def toValue (d : Derivation) : Value := (Document.ofDerivation d).toValue

/-- Saves a derivation and loads it again, which numbers its parts anew. -/
def reload (d : Derivation) : Except LoadError Derivation := (Document.ofDerivation d).load

end Derivation

end Deduction
