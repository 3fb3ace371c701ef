import Deduction.Document.Load
import Deduction.Proofs.Outcome
import Mathlib.Data.List.Forall2

set_option autoImplicit false

/-! # Data without defects

Which data is a document, said apart from the functions that read it: a relation between data and the
document that it describes. It holds of data in which all values have the right types: labels are
texts or whole numbers, formulas are texts, and what is a list or a record has to be one. Fields may be
missing, and premises, labels and formulas may be null.

Reading data that describes a document gives that document, and what is saved describes the document
that was to be saved. -/

namespace Deduction.Document

/-! ## Types -/

/-- The value of a field. A missing field is null. -/
def fieldOf (fields : List (String × Value)) (name : String) : Value :=
  ((Value.record fields).field? name).getD .null

/-- The value of a field that is a list. A missing field is an empty list. -/
def listOf (fields : List (String × Value)) (name : String) : Value :=
  ((Value.record fields).field? name).getD (.list [])

/-- A label that may be missing. -/
inductive IsLabel : Value → Option Label → Prop
  | null : IsLabel .null none
  | text (s : String) : IsLabel (.text s) (some (.text s))
  | number (n : Int) : IsLabel (.number n) (some (.number n))

/-- The text of a formula that may be missing. -/
inductive IsText : Value → Option String → Prop
  | null : IsText .null none
  | text (s : String) : IsText (.text s) (some s)

inductive AreLabels : Value → List (Option Label) → Prop
  | list {items : List Value} {labels : List (Option Label)}
      (h : List.Forall₂ IsLabel items labels) : AreLabels (.list items) labels

/-- A premise is null, a text, or a record with a label and a text. -/
inductive IsPremise : Value → PremiseEntry → Prop
  | null : IsPremise .null ⟨.ok none, .ok none⟩
  | text (s : String) : IsPremise (.text s) ⟨.ok none, .ok (some s)⟩
  | record {fields : List (String × Value)} {label : Option Label} {text : Option String}
      (hlabel : IsLabel (fieldOf fields "id") label) (htext : IsText (fieldOf fields "expr") text) :
      IsPremise (.record fields) ⟨.ok label, .ok text⟩

inductive ArePremises : Value → List PremiseEntry → Prop
  | list {items : List Value} {premises : List PremiseEntry}
      (h : List.Forall₂ IsPremise items premises) : ArePremises (.list items) premises

/-- Lines are records. One with a subproof holds the premises and lines of it, any other one is a
    step. -/
inductive AreLines : Value → LineEntries → Prop
  | nil : AreLines (.list []) .nil
  | step {fields : List (String × Value)} {label : Option Label} {conclusion : Option String}
      {lineDeps subproofDeps : List (Option Label)} {items : List Value} {rest : LineEntries}
      (hkind : (Value.record fields).field? "subproof" = none)
      (hlabel : IsLabel (fieldOf fields "id") label)
      (hconclusion : IsText (fieldOf fields "conclusion") conclusion)
      (hlineDeps : AreLabels (listOf fields "deps") lineDeps)
      (hsubproofDeps : AreLabels (listOf fields "subproof_deps") subproofDeps)
      (hrest : AreLines (.list items) rest) :
      AreLines (.list (.record fields :: items))
        (.step ⟨.ok label, .ok conclusion, fieldOf fields "rule", lineDeps.map .ok,
          subproofDeps.map .ok⟩ rest)
  | subproof {fields inner : List (String × Value)} {label : Option Label}
      {premises : List PremiseEntry} {body : LineEntries} {items : List Value} {rest : LineEntries}
      (hkind : (Value.record fields).field? "subproof" = some (.record inner))
      (hlabel : IsLabel (fieldOf fields "id") label)
      (hpremises : ArePremises (listOf inner "premises") premises)
      (hbody : AreLines (listOf inner "lines") body) (hrest : AreLines (.list items) rest) :
      AreLines (.list (.record fields :: items)) (.subproof (.ok label) premises body rest)

/-- The data has the right types throughout, and this is the document that it describes. At the
    outermost level the premises may be null, which is no premises. -/
inductive Describes : Value → Document → Prop
  | noPremises {fields : List (String × Value)} {lines : LineEntries}
      (hpremises : (Value.record fields).field? "premises" = some .null)
      (hlines : AreLines (listOf fields "lines") lines) : Describes (.record fields) ⟨[], lines⟩
  | document {fields : List (String × Value)} {premises : List PremiseEntry} {lines : LineEntries}
      (hpremises : ArePremises (listOf fields "premises") premises)
      (hlines : AreLines (listOf fields "lines") lines) :
      Describes (.record fields) ⟨premises, lines⟩

/-! ## Reading gives the document that is described -/

theorem readLabel_of_isLabel {v : Value} {label : Option Label} (h : IsLabel v label) :
    readLabel v = .ok label := by
  cases h <;> rfl

theorem readText_of_isText {v : Value} {text : Option String} (h : IsText v text) :
    readText v = .ok text := by
  cases h <;> rfl

theorem field?_of_listOf {fields : List (String × Value)} {name : String} {items : List Value}
    (h : listOf fields name = .list items) :
    ((Value.record fields).field? name = none ∧ items = []) ∨
      (Value.record fields).field? name = some (.list items) := by
  unfold listOf at h
  cases hfield : (Value.record fields).field? name with
  | none =>
      rw [hfield] at h
      cases h
      exact .inl ⟨rfl, rfl⟩
  | some v =>
      rw [hfield] at h
      exact .inr (congrArg some h)

theorem readLabels_of_areLabels {fields : List (String × Value)} {name : String}
    {labels : List (Option Label)} (h : AreLabels (listOf fields name) labels) :
    readLabels ((Value.record fields).field? name) = labels.map .ok := by
  generalize hlist : listOf fields name = v at h
  obtain @⟨items, labels, h⟩ := h
  have hitems : items.map readLabel = labels.map .ok := by
    rw [← List.forall₂_eq_eq_eq, List.forall₂_map_left_iff, List.forall₂_map_right_iff]
    exact h.imp fun _ _ => readLabel_of_isLabel
  rw [← hitems]
  rcases field?_of_listOf hlist with ⟨hfield, rfl⟩ | hfield
  · rw [hfield]
    rfl
  · rw [hfield]
    rfl

theorem readPremise_of_isPremise {v : Value} {entry : PremiseEntry} (h : IsPremise v entry) :
    readPremise v = entry := by
  cases h with
  | null => rfl
  | text s => rfl
  | record hlabel htext =>
      exact congrArg₂ PremiseEntry.mk (readLabel_of_isLabel hlabel) (readText_of_isText htext)

theorem readPremises_of_arePremises {fields : List (String × Value)} {premises : List PremiseEntry}
    (h : ArePremises (listOf fields "premises") premises) :
    readPremises ((Value.record fields).field? "premises") = premises := by
  generalize hlist : listOf fields "premises" = v at h
  obtain @⟨items, premises, h⟩ := h
  have hitems : items.map readPremise = premises := by
    rw [← List.forall₂_eq_eq_eq, List.forall₂_map_left_iff]
    exact h.imp fun _ _ => readPremise_of_isPremise
  rw [← hitems]
  rcases field?_of_listOf hlist with ⟨hfield, rfl⟩ | hfield
  · rw [hfield]
    rfl
  · rw [hfield]
    rfl

theorem field?_cons (name : String) (field : String × Value) (fields : List (String × Value)) :
    (Value.record (field :: fields)).field? name =
      if field.1 = name then some field.2 else (Value.record fields).field? name := by
  simp only [Value.field?, List.find?_cons]
  by_cases h : field.1 = name
  · rw [if_pos h, beq_iff_eq.2 h]
    rfl
  · rw [if_neg h, beq_eq_false_iff_ne.2 h]

theorem readLinesField_eq (fields : List (String × Value)) :
    readLinesField fields = readLines (listOf fields "lines") := by
  induction fields with
  | nil => rfl
  | cons field fields ih =>
      rw [readLinesField, listOf, field?_cons]
      by_cases h : field.1 = "lines"
      · rw [if_pos h, if_pos h]
        rfl
      · rw [if_neg h, if_neg h, ih]
        rfl

/-- The entry of a subproof is found wherever its field stands among the others. -/
theorem readSubproof_eq {all fields inner : List (String × Value)}
    (h : (Value.record fields).field? "subproof" = some (.record inner)) (rest : LineEntries) :
    readSubproof all fields rest =
      .subproof (readLabel (fieldOf all "id"))
        (readPremises ((Value.record inner).field? "premises")) (readLinesField inner) rest := by
  induction fields with
  | nil => cases h
  | cons field fields ih =>
      obtain ⟨name, value⟩ := field
      rw [field?_cons] at h
      rw [readSubproof]
      by_cases hname : name = "subproof"
      · rw [if_pos hname] at h
        cases h
        rw [if_pos hname]
        rfl
      · rw [if_neg hname] at h
        rw [if_neg hname]
        exact ih h

theorem any_subproof_iff {fields : List (String × Value)} :
    fields.any (·.1 == "subproof") = true ↔
      ((Value.record fields).field? "subproof").isSome = true := by
  rw [Value.field?, Option.isSome_map, List.find?_isSome, List.any_eq_true]

theorem readLines_of_areLines {v : Value} {lines : LineEntries} (h : AreLines v lines) :
    readLines v = lines := by
  induction h with
  | nil => rfl
  | @step fields label conclusion lineDeps subproofDeps items rest hkind hlabel hconclusion hlineDeps
      hsubproofDeps _ ih =>
      have hstep : readStep (.record fields) = ⟨.ok label, .ok conclusion, fieldOf fields "rule",
          lineDeps.map .ok, subproofDeps.map .ok⟩ := by
        rw [readStep, readLabels_of_areLabels hlineDeps, readLabels_of_areLabels hsubproofDeps]
        congr 1
        · exact readLabel_of_isLabel hlabel
        · exact readText_of_isText hconclusion
      have hany : ¬ fields.any (·.1 == "subproof") = true := by
        rw [any_subproof_iff, hkind]
        exact Bool.false_ne_true
      rw [readLines, readItems, if_neg hany, hstep, ← ih]
      rfl
  | @subproof fields inner label premises body items rest hkind hlabel hpremises _ _ ihbody ihrest =>
      have hany : fields.any (·.1 == "subproof") = true := by
        rw [any_subproof_iff, hkind]
        rfl
      rw [readLines, readItems, if_pos hany, readSubproof_eq hkind, readLabel_of_isLabel hlabel,
        readPremises_of_arePremises hpremises, readLinesField_eq, ihbody, ← ihrest]
      rfl

/-- Data that describes a document is read as that document. -/
theorem ofValue_of_describes {v : Value} {doc : Document} (h : Describes v doc) :
    ofValue v = .ok doc := by
  cases h with
  | noPremises hpremises hlines =>
      rw [ofValue, hpremises, readLinesField_eq, readLines_of_areLines hlines]
      rfl
  | @document fields premises lines hpremises hlines =>
      have hread := readPremises_of_arePremises hpremises
      rw [ofValue, readLinesField_eq, readLines_of_areLines hlines]
      generalize hlist : listOf fields "premises" = v at hpremises
      obtain @⟨items, premises, -⟩ := hpremises
      rcases field?_of_listOf hlist with ⟨hfield, -⟩ | hfield
      · rw [hfield] at hread ⊢
        rw [← hread]
        rfl
      · rw [hfield] at hread ⊢
        rw [← hread]
        cases items with
        | nil => rfl
        | cons item items => rfl

/-! ## What is saved describes a document -/

theorem map_dumpLabel (refs : List Ref) :
    refs.map dumpLabel = (refs.map fun r => some (Label.text r.label)).map .ok := by
  rw [List.map_map]
  rfl

theorem areLabels_dump (refs : List Ref) :
    AreLabels (.list (((refs.map fun r => some (Label.text r.label)).map .ok).map writeLabel))
      (refs.map fun r => some (.text r.label)) := by
  refine .list ?_
  rw [List.map_map, List.map_map, List.forall₂_map_left_iff, List.forall₂_map_right_iff,
    List.forall₂_same]
  intro r _
  exact .text _

theorem isText_dump (formula : Option Formula) :
    IsText (writeText (.ok (formula.map Formula.render))) (formula.map Formula.render) := by
  cases formula with
  | none => exact .null
  | some f => exact .text _

theorem arePremises_dump (premises : List Premise) :
    ArePremises (.list ((premises.map dumpPremise).map writePremise)) (premises.map dumpPremise) := by
  refine .list ?_
  rw [List.map_map, List.forall₂_map_left_iff, List.forall₂_map_right_iff, List.forall₂_same]
  intro p _
  exact .record (.text _) (isText_dump p.formula)

theorem areLines_dump (L : Lines) : AreLines (.list (writeLines (dumpLines L))) (dumpLines L) := by
  induction L with
  | nil => exact .nil
  | step id content rest ih =>
      rw [dumpLines, dumpStep, map_dumpLabel, map_dumpLabel, writeLines]
      exact .step rfl (.text _) (isText_dump content.conclusion) (areLabels_dump _)
        (areLabels_dump _) ih
  | subproof id premises body rest ihbody ihrest =>
      exact .subproof rfl (.text _) (arePremises_dump premises) ihbody ihrest

/-- A derivation is saved as data that describes its document. -/
theorem describes_toValue (d : Derivation) : Describes d.toValue (ofDerivation d) :=
  .document (arePremises_dump d.root.premises) (areLines_dump d.root.lines)

end Deduction.Document
