import Deduction.Value

set_option autoImplicit false

/-! # Saved documents

The saved form of a derivation. Entries carry labels, by which steps cite lines and subproofs, and
formulas as text.

A document that was read from data may have defects: a value of the wrong type where a text, a label
or a list was due. A defect is kept in its place, because loading goes through a document in order
and reports the first thing that is wrong with it. -/

namespace Deduction

/-- What is wrong with a value that was read. -/
inductive Defect where
  /-- A list was due. -/
  | notAList
  /-- The text of a formula was due. -/
  | notAText
  /-- A record was due. -/
  | notARecord
  /-- The text of a formula was due, and an empty list or record is there. -/
  | emptyCollection (v : Value)
  /-- A list or a record cannot be a label. -/
  | notALabel
  /-- The first entry of a record was asked for. -/
  | noFirst
  /-- A field of a text or a list was asked for. -/
  | noField
deriving DecidableEq

/-- What an entry is called in a document. -/
inductive Label where
  | text (s : String)
  | number (n : Int)
  | real (x : Binary64)
  | truth (b : Bool)
deriving DecidableEq

/-- What labels are compared by: labels of one key mean the same entry. -/
inductive Label.Key where
  | text (s : String)
  | number (value : Dyadic)
  /-- A number that has no value. -/
  | special (x : Binary64)
deriving DecidableEq

/-- The key of a whole number. -/
def Label.Key.ofInt (n : Int) : Label.Key := .number (.ofIntWithPrec n 0)

/-- Numbers count by their values, truth values as one and zero. -/
def Label.key : Label → Label.Key
  | .text s => .text s
  | .number n => .ofInt n
  | .real x =>
    match x.value? with
    | some value => .number value
    | none => .special x
  | .truth b => .ofInt b.toNat

def Label.toValue : Label → Value
  | .text s => .text s
  | .number n => .number n
  | .real x => .real x
  | .truth b => .bool b

def Label.render (label : Label) : String := label.toValue.render

/-- A label that may be missing. -/
def Label.renderOption : Option Label → String
  | none => "None"
  | some label => label.render

/-- A field of an entry: a value that may be missing, or a defect. -/
abbrev Entry (α : Type) := Except Defect (Option α)

structure PremiseEntry where
  label : Entry Label
  text : Entry String

/-- The fields of a saved step. -/
structure StepEntry where
  label : Entry Label
  conclusion : Entry String
  rule : Value
  lineDeps : List (Entry Label)
  subproofDeps : List (Entry Label)

/-- Saved lines, in order. A defect in place of a line is the end of them. -/
inductive LineEntries where
  | nil
  | step (entry : StepEntry) (rest : LineEntries)
  | subproof (label : Entry Label) (premises : List PremiseEntry) (body : LineEntries)
      (rest : LineEntries)
  | defect (defect : Defect)

structure Document where
  premises : List PremiseEntry
  lines : LineEntries

namespace Document

/-! ## Reading data -/

/-- A premise that is nothing but a defect. -/
def defectivePremise (defect : Defect) : PremiseEntry := ⟨.ok none, .error defect⟩

def readText : Value → Entry String
  | .null => .ok none
  | .text s => .ok (some s)
  | .list [] => .error (.emptyCollection (.list []))
  | .record [] => .error (.emptyCollection (.record []))
  | _ => .error .notAText

def readLabel : Value → Entry Label
  | .null => .ok none
  | .text s => .ok (some (.text s))
  | .number n => .ok (some (.number n))
  | .real x => .ok (some (.real x))
  | .bool b => .ok (some (.truth b))
  | .list _ | .record _ => .error .notALabel

/-- The labels of a list that may be missing. -/
def readLabels : Option Value → List (Entry Label)
  | none => []
  | some v =>
    match v.items? with
    | some items => items.map readLabel
    | none => [.error .notAList]

/-- A premise is a text or a record with a text. -/
def readPremise (v : Value) : PremiseEntry :=
  match v with
  | .record _ =>
    ⟨readLabel ((v.field? "id").getD .null), readText ((v.field? "expr").getD .null)⟩
  | _ => ⟨.ok none, readText v⟩

/-- The premises of a scope. -/
def readPremises : Option Value → List PremiseEntry
  | none => []
  | some v =>
    match v.items? with
    | some items => items.map readPremise
    | none => [defectivePremise .notAList]

def readStep (v : Value) : StepEntry where
  label := readLabel ((v.field? "id").getD .null)
  conclusion := readText ((v.field? "conclusion").getD .null)
  rule := (v.field? "rule").getD .null
  lineDeps := readLabels (v.field? "deps")
  subproofDeps := readLabels (v.field? "subproof_deps")

/-- Do characters stand next to each other in a text? -/
def hasInfix (part : List Char) : List Char → Bool
  | [] => part.isEmpty
  | c :: cs => part.isPrefixOf (c :: cs) || hasInfix part cs

/-- What is wrong with a text in place of a line. A text that speaks of a subproof passes for one
    until its field is asked for. -/
def textDefect (s : String) : Defect :=
  if hasInfix "subproof".toList s.toList then .noField else .notARecord

/-- What is wrong with a list in place of a line. -/
def listDefect (items : List Value) : Defect :=
  if items.any (· = .text "subproof") then .noField else .notARecord

mutual

/-- The lines in the `lines` field of a record. -/
def readLinesField : List (String × Value) → LineEntries
  | [] => .nil
  | (name, value) :: fields => if name = "lines" then readLines value else readLinesField fields

/-- The lines of a list. Only an empty text or record can stand for one. -/
def readLines : Value → LineEntries
  | .list items => readItems items
  | .text s => if s.isEmpty then .nil else .defect .notARecord
  | .record [] => .nil
  | .record ((name, _) :: _) => .defect (textDefect name)
  | .null | .bool _ | .number _ | .real _ => .defect .notAList

/-- One line after the other. -/
def readItems : List Value → LineEntries
  | [] => .nil
  | .record fields :: items =>
    if fields.any (·.1 == "subproof") then readSubproof fields fields (readItems items)
    else .step (readStep (.record fields)) (readItems items)
  | .list inner :: _ => .defect (listDefect inner)
  | .text s :: _ => .defect (textDefect s)
  | .null :: _ | .bool _ :: _ | .number _ :: _ | .real _ :: _ => .defect .notAList

/-- The subproof in the `subproof` field of an entry, whose fields are `all`. -/
def readSubproof (all : List (String × Value)) : List (String × Value) → LineEntries → LineEntries
  | [], rest => rest
  | (name, value) :: fields, rest =>
    if name = "subproof" then
      let label := readLabel (((Value.record all).field? "id").getD .null)
      match value with
      | .record inner =>
        .subproof label (readPremises ((Value.record inner).field? "premises"))
          (readLinesField inner) rest
      | _ => .subproof label [defectivePremise .notARecord] .nil rest
    else readSubproof all fields rest

end

/-- Reads a document. At the outermost level nothing may stand for the list of premises, but no
    record. -/
def ofValue : Value → Except Defect Document
  | .record fields =>
    match ((Value.record fields).field? "premises").filter fun v => !v.isNothing with
    | some (.record _) => .error .noFirst
    | premises => .ok ⟨readPremises premises, readLinesField fields⟩
  | _ => .error .notARecord

/-! ## Writing data -/

/-- Text or nothing. A defect is never written. -/
def writeText : Entry String → Value
  | .ok (some s) => .text s
  | _ => .null

def writeLabel : Entry Label → Value
  | .ok (some label) => label.toValue
  | _ => .null

def writePremise (p : PremiseEntry) : Value :=
  .record [("id", writeLabel p.label), ("expr", writeText p.text)]

def writeStep (s : StepEntry) : Value :=
  .record [
    ("id", writeLabel s.label),
    ("conclusion", writeText s.conclusion),
    ("rule", s.rule),
    ("deps", .list (s.lineDeps.map writeLabel)),
    ("subproof_deps", .list (s.subproofDeps.map writeLabel))]

/-- A scope as data. -/
def writeScope (premises : List PremiseEntry) (lines : List Value) : Value :=
  .record [("premises", .list (premises.map writePremise)), ("lines", .list lines)]

def writeLines : LineEntries → List Value
  | .nil => []
  | .step entry rest => writeStep entry :: writeLines rest
  | .subproof label premises body rest =>
    .record [("id", writeLabel label), ("subproof", writeScope premises (writeLines body))]
      :: writeLines rest
  | .defect _ => []

/-- The document as data. -/
def toValue (d : Document) : Value := writeScope d.premises (writeLines d.lines)

end Document

end Deduction
