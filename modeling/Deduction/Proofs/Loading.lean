import Deduction.Document.Load
import Deduction.Proofs.Outcome
import Deduction.Proofs.Parts
import Mathlib.Data.List.Basic
import Mathlib.Data.List.Nodup

set_option autoImplicit false

/-! # What loading makes of a document

The derivation of a document, said without failures: its entries are numbered from one in document
order, and a citation leads to the entry that has the label. Loading gives this derivation, if it can:
every text has to be one of a formula, no label may occur twice, and what is cited has to be there. -/

namespace Deduction

/-! ## Entries in document order -/

/-- What an entry of a document is. -/
inductive EntryKind where
  | premise | step | subproof
deriving DecidableEq

/-- The reference of an entry with the given number. -/
def EntryKind.ref : EntryKind → Int → Ref
  | .premise => .premise
  | .step => .step
  | .subproof => .subproof

theorem EntryKind.id_ref (kind : EntryKind) (id : Int) : (kind.ref id).id = id := by
  cases kind <;> rfl

/-- The label and the kind of each entry, in document order. -/
abbrev Entries := List (Entry Label × EntryKind)

def PremiseEntry.entry (p : PremiseEntry) : Entry Label × EntryKind := (p.label, .premise)

namespace LineEntries

def entries : LineEntries → Entries
  | .nil | .defect _ => []
  | .step entry rest => (entry.label, .step) :: rest.entries
  | .subproof label premises body rest =>
    (label, .subproof) :: (premises.map PremiseEntry.entry ++ (body.entries ++ rest.entries))

/-- The texts of premises and conclusions, at any depth. -/
def texts : LineEntries → List (Entry String)
  | .nil | .defect _ => []
  | .step entry rest => entry.conclusion :: rest.texts
  | .subproof _ premises body rest =>
    premises.map PremiseEntry.text ++ (body.texts ++ rest.texts)

/-- The steps, at any depth. -/
def steps : LineEntries → List StepEntry
  | .nil | .defect _ => []
  | .step entry rest => entry :: rest.steps
  | .subproof _ _ body rest => body.steps ++ rest.steps

/-- No defect stands in place of a line. -/
def Complete : LineEntries → Prop
  | .nil => True
  | .step _ rest => rest.Complete
  | .subproof _ _ body rest => body.Complete ∧ rest.Complete
  | .defect _ => False

end LineEntries

namespace Document

def entries (doc : Document) : Entries :=
  doc.premises.map PremiseEntry.entry ++ doc.lines.entries

def texts (doc : Document) : List (Entry String) :=
  doc.premises.map PremiseEntry.text ++ doc.lines.texts

/-- The entries with their references, the first of them having the number `start`. -/
def enumerate (start : Int) : Entries → List (Entry Label × Ref)
  | [] => []
  | (label, kind) :: rest => (label, kind.ref start) :: enumerate (start + 1) rest

theorem enumerate_append (start : Int) (xs ys : Entries) :
    enumerate start (xs ++ ys) = enumerate start xs ++ enumerate (start + xs.length) ys := by
  induction xs generalizing start with
  | nil => simp [enumerate]
  | cons x xs ih =>
      rw [List.cons_append, enumerate, ih, enumerate, List.cons_append, List.length_cons]
      congr 3
      omega

/-- The label of an entry, if it has one. -/
def labelOf : Entry Label → Option Label
  | .ok label => label
  | .error _ => none

theorem labelOf_eq_some_iff {entry : Entry Label} {label : Label} :
    labelOf entry = some label ↔ entry = .ok (some label) := by
  cases entry with
  | error defect => exact ⟨nofun, nofun⟩
  | ok label' => exact ⟨fun h => congrArg Except.ok h, fun h => Except.ok.inj h⟩

/-- What the labels of entries stand for. -/
def labelled (xs : List (Entry Label × Ref)) : Labels :=
  xs.filterMap fun x => (labelOf x.1).map fun label => (label.key, x.2)

theorem labelled_append (xs ys : List (Entry Label × Ref)) :
    labelled (xs ++ ys) = labelled xs ++ labelled ys := List.filterMap_append

theorem mem_labelled {xs : List (Entry Label × Ref)} {key : Label.Key} {r : Ref} :
    (key, r) ∈ labelled xs ↔ ∃ label, (.ok (some label), r) ∈ xs ∧ label.key = key := by
  simp only [labelled, List.mem_filterMap, Option.map_eq_some_iff, labelOf_eq_some_iff]
  constructor
  · rintro ⟨⟨entry, r'⟩, hmem, label, rfl, heq⟩
    obtain ⟨rfl, rfl⟩ := Prod.mk.inj heq
    exact ⟨label, hmem, rfl⟩
  · rintro ⟨label, hmem, rfl⟩
    exact ⟨_, hmem, label, rfl, rfl⟩

theorem get?_eq_none_iff {labels : Labels} {label : Label} :
    labels.get? label = none ↔ label.key ∉ labels.map Prod.fst := by
  simp only [Labels.get?, List.lookup_eq_none_iff, bne_iff_ne, List.mem_map, not_exists, not_and]
  exact ⟨fun h x hx heq => h x hx heq.symm, fun h x hx heq => h x hx heq.symm⟩

theorem mem_of_get? {labels : Labels} {label : Label} {r : Ref} (h : labels.get? label = some r) :
    (label.key, r) ∈ labels := by
  obtain ⟨front, back, rfl, -⟩ := List.lookup_eq_some_iff.1 h
  simp

/-- Where no key comes twice, a label stands for what is listed with its key. -/
theorem get?_eq_some_iff {labels : Labels} (h : (labels.map Prod.fst).Nodup) {label : Label}
    {r : Ref} : labels.get? label = some r ↔ (label.key, r) ∈ labels := by
  refine ⟨mem_of_get?, fun hmem => ?_⟩
  cases hget : labels.get? label with
  | none => exact absurd (List.mem_map_of_mem hmem) (get?_eq_none_iff.1 hget)
  | some r' =>
      have hsame := List.inj_on_of_nodup_map h (mem_of_get? hget) hmem rfl
      exact congrArg some (Prod.mk.inj hsame).2

/-! ## Passing entries -/

namespace Progress

/-- The progress behind the given entries. -/
def behind (p : Progress) (xs : Entries) : Progress :=
  ⟨p.nextId + xs.length, p.labels ++ labelled (enumerate p.nextId xs)⟩

/-- No key stands for two entries. -/
def Distinct (p : Progress) : Prop := (p.labels.map Prod.fst).Nodup

/-- The labels of the entries are labels, and no key comes twice. -/
def Accepts (p : Progress) (xs : Entries) : Prop :=
  (∀ x ∈ xs, ∃ label, x.1 = .ok label) ∧ (p.behind xs).Distinct

variable {p p' : Progress} {xs ys : Entries}

theorem behind_nil (p : Progress) : p.behind [] = p := by
  simp [behind, enumerate, labelled]

theorem behind_append (p : Progress) (xs ys : Entries) :
    p.behind (xs ++ ys) = (p.behind xs).behind ys := by
  simp only [behind, enumerate_append, labelled_append, List.append_assoc, List.length_append,
    Int.natCast_add, Int.add_assoc]

theorem accepts_nil : p.Accepts [] ↔ p.Distinct := by
  rw [Accepts, behind_nil]
  simp

/-- Entries are accepted one after the other. -/
theorem accepts_append : p.Accepts (xs ++ ys) ↔ p.Accepts xs ∧ (p.behind xs).Accepts ys := by
  simp only [Accepts, List.forall_mem_append, ← behind_append]
  constructor
  · rintro ⟨⟨hxs, hys⟩, hdistinct⟩
    refine ⟨⟨hxs, ?_⟩, hys, hdistinct⟩
    rw [behind_append, Distinct, behind, List.map_append] at hdistinct
    exact (List.nodup_append.1 hdistinct).1
  · rintro ⟨⟨hxs, -⟩, hys, hdistinct⟩
    exact ⟨⟨hxs, hys⟩, hdistinct⟩

theorem accepts_cons {x : Entry Label × EntryKind} :
    p.Accepts (x :: xs) ↔ p.Accepts [x] ∧ (p.behind [x]).Accepts xs :=
  @accepts_append p [x] xs

theorem Accepts.distinct (h : p.Accepts xs) : (p.behind xs).Distinct := h.2

theorem behind_unlabelled (p : Progress) (kind : EntryKind) :
    p.behind [(.ok none, kind)] = ⟨p.nextId + 1, p.labels⟩ :=
  congrArg (Progress.mk _) (List.append_nil _)

theorem behind_labelled (p : Progress) (label : Label) (kind : EntryKind) :
    p.behind [(.ok (some label), kind)] =
      ⟨p.nextId + 1, p.labels ++ [(label.key, kind.ref p.nextId)]⟩ := rfl

theorem accepts_labelled (hp : p.Distinct) {label : Label} {kind : EntryKind} :
    p.Accepts [(.ok (some label), kind)] ↔ p.labels.get? label = none := by
  rw [get?_eq_none_iff, Accepts, behind_labelled, Distinct, List.map_append, List.nodup_append]
  constructor
  · rintro ⟨-, -, -, hfresh⟩ hmem
    exact hfresh _ hmem _ (List.mem_singleton_self _) rfl
  · intro hfresh
    refine ⟨by simp, hp, by simp, ?_⟩
    rintro a ha b hb rfl
    obtain rfl := List.mem_singleton.1 hb
    exact hfresh ha

/-- An entry is registered if it is accepted. -/
theorem register_eq_ok_iff (hp : p.Distinct) {entry : Entry Label} (kind : EntryKind) :
    p.register entry (kind.ref p.nextId) = .ok p' ↔
      p.Accepts [(entry, kind)] ∧ p' = p.behind [(entry, kind)] := by
  rcases entry with defect | _ | label
  · constructor
    · intro h
      cases h
    · rintro ⟨⟨hlabels, -⟩, -⟩
      obtain ⟨label, hlabel⟩ := hlabels _ (List.mem_singleton_self _)
      cases hlabel
  · have hregister : p.register (.ok none) (kind.ref p.nextId) = .ok ⟨p.nextId + 1, p.labels⟩ := rfl
    have haccepts : p.Accepts [(.ok none, kind)] := by
      refine ⟨by simp, ?_⟩
      rw [behind_unlabelled]
      exact hp
    rw [hregister, behind_unlabelled, Except.ok.injEq]
    exact ⟨fun h => ⟨haccepts, h.symm⟩, fun h => h.2.symm⟩
  · rw [accepts_labelled hp, behind_labelled]
    cases hget : p.labels.get? label with
    | none =>
        have hregister : p.register (.ok (some label)) (kind.ref p.nextId) =
            .ok ⟨p.nextId + 1, p.labels ++ [(label.key, kind.ref p.nextId)]⟩ := by
          refine bind_eq_ok.2 ⟨some label, rfl, ?_⟩
          dsimp only
          rw [hget]
          rfl
        rw [hregister, Except.ok.injEq]
        exact ⟨fun h => ⟨rfl, h.symm⟩, fun h => h.2.symm⟩
    | some r =>
        constructor
        · intro h
          obtain ⟨_, hlabel, h⟩ := bind_eq_ok.1 h
          cases hlabel
          dsimp only at h
          rw [hget] at h
          cases h
        · rintro ⟨hnone, -⟩
          cases hnone

end Progress

/-! ## The parts of a document -/

/-- A missing or empty text is a blank formula, and any other one has to be read. -/
theorem loadFormula_eq_ok_iff {text : Entry String} {formula : Option Formula} :
    loadFormula text = .ok formula ↔
      ((text = .ok none ∨ text = .ok (some "")) ∧ formula = none) ∨
        ∃ s f, text = .ok (some s) ∧ s ≠ "" ∧ Formula.parse s = .ok f ∧ formula = some f := by
  constructor
  · intro h
    obtain ⟨content, hcontent, hread⟩ := bind_eq_ok.1 h
    obtain rfl := mapError_eq_ok.1 hcontent
    cases content with
    | none => exact .inl ⟨.inl rfl, (pure_eq_ok.1 hread).symm⟩
    | some s =>
        dsimp only at hread
        by_cases hempty : s = ""
        · rw [if_pos hempty] at hread
          rw [hempty]
          exact .inl ⟨.inr rfl, (pure_eq_ok.1 hread).symm⟩
        · rw [if_neg hempty] at hread
          obtain ⟨f, hparse, hf⟩ := bind_eq_ok.1 hread
          exact .inr ⟨s, f, rfl, hempty, mapError_eq_ok.1 hparse, (pure_eq_ok.1 hf).symm⟩
  · rintro (⟨rfl | rfl, rfl⟩ | ⟨s, f, rfl, hempty, hparse, rfl⟩)
    · rfl
    · rfl
    · refine bind_eq_ok.2 ⟨some s, rfl, ?_⟩
      dsimp only
      rw [if_neg hempty]
      exact bind_eq_ok.2 ⟨f, mapError_eq_ok.2 hparse, rfl⟩

/-- The formula of a text; a text that is none gives a blank one. -/
def readFormula (text : Entry String) : Option Formula :=
  match loadFormula text with
  | .ok formula => formula
  | .error _ => none

theorem readFormula_of_load {text : Entry String} {formula : Option Formula}
    (h : loadFormula text = .ok formula) : readFormula text = formula := by
  rw [readFormula, h]

/-- The premises of entries, numbered from `start` on. -/
def buildPremises (start : Int) : List PremiseEntry → List Premise
  | [] => []
  | entry :: entries => ⟨start, readFormula entry.text⟩ :: buildPremises (start + 1) entries

end Document

/-- The lines of entries, numbered from `start` on, their steps having the given contents. -/
def LineEntries.build (content : StepEntry → Step) (start : Int) : LineEntries → Lines
  | .nil | .defect _ => .nil
  | .step entry rest => .step start (content entry) (rest.build content (start + 1))
  | .subproof _ premises body rest =>
    .subproof start (Document.buildPremises (start + 1) premises)
      (body.build content (start + 1 + premises.length))
      (rest.build content (start + 1 + premises.length + body.entries.length))

namespace StepEntry

/-- The step without what it cites. -/
def outline (entry : StepEntry) : Step :=
  { conclusion := Document.readFormula entry.conclusion, rule := entry.rule }

/-- The reference that a citation leads to. -/
def cited? (labels : Document.Labels) (dep : Entry Label) : Option Ref :=
  (Document.labelOf dep).bind labels.get?

/-- The step with what it cites. -/
def cited (labels : Document.Labels) (entry : StepEntry) : Step :=
  .citing (Document.readFormula entry.conclusion) entry.rule
    (entry.lineDeps.filterMap (cited? labels)) (entry.subproofDeps.filterMap (cited? labels))

/-- All that the step cites can be found, lines and subproofs each in their place. -/
def Resolves (labels : Document.Labels) (entry : StepEntry) : Prop :=
  (∀ dep ∈ entry.lineDeps, ∃ r, cited? labels dep = some r ∧ r.isLine = true) ∧
    ∀ dep ∈ entry.subproofDeps, ∃ r, cited? labels dep = some r ∧ r.isSubproof = true

end StepEntry

namespace Document

theorem map_ref_buildPremises (start : Int) (premises : List PremiseEntry) :
    (buildPremises start premises).map Premise.ref =
      (enumerate start (premises.map PremiseEntry.entry)).map Prod.snd := by
  induction premises generalizing start with
  | nil => rfl
  | cons entry premises ih =>
      rw [buildPremises, List.map_cons, ih]
      rfl

/-- The parts of a derivation are the entries of its document. -/
theorem parts_build (content : StepEntry → Step) (start : Int) (lines : LineEntries) :
    (lines.build content start).parts = (enumerate start lines.entries).map Prod.snd := by
  induction lines generalizing start with
  | nil => rfl
  | defect d => rfl
  | step entry rest ih =>
      rw [LineEntries.build, Lines.parts, ih]
      rfl
  | subproof label premises body rest ihbody ihrest =>
      rw [LineEntries.build, Lines.parts, map_ref_buildPremises, ihbody, ihrest,
        LineEntries.entries, enumerate, enumerate_append, enumerate_append, List.length_map,
        List.map_cons, List.map_append, List.map_append]
      rfl

theorem steps_build (content : StepEntry → Step) (start : Int) (lines : LineEntries) :
    (lines.build content start).steps.map Prod.snd = lines.steps.map content := by
  induction lines generalizing start with
  | nil => rfl
  | defect d => rfl
  | step entry rest ih =>
      rw [LineEntries.build, Lines.steps, List.map_cons, ih]
      rfl
  | subproof label premises body rest ihbody ihrest =>
      rw [LineEntries.build, Lines.steps, List.map_append, ihbody, ihrest, LineEntries.steps,
        List.map_append]

/-! ## Reading the entries -/

theorem loadPremises_eq_ok_iff {p p' : Progress} (hp : p.Distinct) {entries : List PremiseEntry}
    {premises : List Premise} :
    loadPremises p entries = .ok (premises, p') ↔
      (∀ text ∈ entries.map PremiseEntry.text, ∃ formula, loadFormula text = .ok formula) ∧
        p.Accepts (entries.map PremiseEntry.entry) ∧
        premises = buildPremises p.nextId entries ∧
        p' = p.behind (entries.map PremiseEntry.entry) := by
  induction entries generalizing p p' premises with
  | nil =>
      rw [loadPremises, Except.ok.injEq, Prod.mk.injEq, List.map_nil, List.map_nil,
        Progress.accepts_nil, Progress.behind_nil]
      exact ⟨fun h => ⟨by simp, hp, h.1.symm, h.2.symm⟩, fun h => ⟨h.2.2.1.symm, h.2.2.2.symm⟩⟩
  | cons entry entries ih =>
      have hbehind : p.behind ((entry :: entries).map PremiseEntry.entry) =
          (p.behind [entry.entry]).behind (entries.map PremiseEntry.entry) :=
        p.behind_append [entry.entry] _
      rw [hbehind, List.map_cons, List.map_cons, Progress.accepts_cons, List.forall_mem_cons]
      constructor
      · intro h
        obtain ⟨formula, hformula, h⟩ := bind_eq_ok.1 h
        obtain ⟨p₁, hregister, h⟩ := bind_eq_ok.1 h
        obtain ⟨haccepts, rfl⟩ := (Progress.register_eq_ok_iff hp .premise).1 hregister
        obtain ⟨⟨rest, p₂⟩, hrest, h⟩ := bind_eq_ok.1 h
        obtain ⟨htexts, haccepts', rfl, rfl⟩ := (ih haccepts.distinct).1 hrest
        obtain ⟨rfl, rfl⟩ := Prod.mk.inj (pure_eq_ok.1 h)
        refine ⟨⟨⟨formula, hformula⟩, htexts⟩, ⟨haccepts, haccepts'⟩, ?_, rfl⟩
        rw [buildPremises, readFormula_of_load hformula]
        rfl
      · rintro ⟨⟨⟨formula, hformula⟩, htexts⟩, ⟨haccepts, haccepts'⟩, rfl, rfl⟩
        refine bind_eq_ok.2 ⟨formula, hformula, bind_eq_ok.2 ⟨p.behind [entry.entry], ?_,
          bind_eq_ok.2 ⟨_, (ih haccepts.distinct).2 ⟨htexts, haccepts', rfl, rfl⟩, ?_⟩⟩⟩
        · exact (Progress.register_eq_ok_iff hp .premise).2 ⟨haccepts, rfl⟩
        · rw [buildPremises, readFormula_of_load hformula]
          rfl

theorem loadLines_eq_ok_iff {p p' : Progress} (hp : p.Distinct) {entries : LineEntries}
    {lines : Lines} :
    loadLines p entries = .ok (lines, p') ↔
      entries.Complete ∧ (∀ text ∈ entries.texts, ∃ formula, loadFormula text = .ok formula) ∧
        p.Accepts entries.entries ∧ lines = entries.build StepEntry.outline p.nextId ∧
        p' = p.behind entries.entries := by
  induction entries generalizing p p' lines with
  | nil =>
      rw [loadLines, Except.ok.injEq, Prod.mk.injEq, LineEntries.entries, Progress.accepts_nil,
        Progress.behind_nil]
      constructor
      · rintro ⟨rfl, rfl⟩
        exact ⟨trivial, nofun, hp, rfl, rfl⟩
      · rintro ⟨-, -, -, rfl, rfl⟩
        exact ⟨rfl, rfl⟩
  | defect d =>
      constructor
      · intro h
        cases h
      · intro h
        exact h.1.elim
  | step entry rest ih =>
      have hbehind : p.behind (LineEntries.step entry rest).entries =
          (p.behind [(entry.label, .step)]).behind rest.entries := p.behind_append [_] _
      rw [hbehind, LineEntries.entries, Progress.accepts_cons, LineEntries.texts,
        List.forall_mem_cons]
      constructor
      · intro h
        obtain ⟨formula, hformula, h⟩ := bind_eq_ok.1 h
        obtain ⟨p₁, hregister, h⟩ := bind_eq_ok.1 h
        obtain ⟨haccepts, rfl⟩ := (Progress.register_eq_ok_iff hp .step).1 hregister
        obtain ⟨⟨lines₁, p₂⟩, hrest, h⟩ := bind_eq_ok.1 h
        obtain ⟨hcomplete, htexts, haccepts', rfl, rfl⟩ := (ih haccepts.distinct).1 hrest
        obtain ⟨rfl, rfl⟩ := Prod.mk.inj (pure_eq_ok.1 h)
        refine ⟨hcomplete, ⟨⟨formula, hformula⟩, htexts⟩, ⟨haccepts, haccepts'⟩, ?_, rfl⟩
        rw [LineEntries.build, StepEntry.outline, readFormula_of_load hformula]
        rfl
      · rintro ⟨hcomplete, ⟨⟨formula, hformula⟩, htexts⟩, ⟨haccepts, haccepts'⟩, rfl, rfl⟩
        refine bind_eq_ok.2 ⟨formula, hformula, bind_eq_ok.2 ⟨p.behind [(entry.label, .step)], ?_,
          bind_eq_ok.2 ⟨_, (ih haccepts.distinct).2 ⟨hcomplete, htexts, haccepts', rfl, rfl⟩, ?_⟩⟩⟩
        · exact (Progress.register_eq_ok_iff hp .step).2 ⟨haccepts, rfl⟩
        · rw [LineEntries.build, StepEntry.outline, readFormula_of_load hformula]
          rfl
  | subproof label premises body rest ihbody ihrest =>
      -- the entries are passed in document order: the subproof, its premises, its lines, the rest
      have hentries : (LineEntries.subproof label premises body rest).entries =
          [(label, .subproof)] ++
            (premises.map PremiseEntry.entry ++ (body.entries ++ rest.entries)) := rfl
      rw [hentries, LineEntries.texts, List.forall_mem_append, List.forall_mem_append]
      simp only [Progress.accepts_append, Progress.behind_append]
      constructor
      · intro h
        obtain ⟨p₁, hregister, h⟩ := bind_eq_ok.1 h
        obtain ⟨haccepts, rfl⟩ := (Progress.register_eq_ok_iff hp .subproof).1 hregister
        obtain ⟨⟨premises₁, p₂⟩, hpremises, h⟩ := bind_eq_ok.1 h
        obtain ⟨htexts₁, haccepts₁, rfl, rfl⟩ := (loadPremises_eq_ok_iff haccepts.distinct).1 hpremises
        obtain ⟨⟨body₁, p₃⟩, hbody, h⟩ := bind_eq_ok.1 h
        obtain ⟨hcomplete₂, htexts₂, haccepts₂, rfl, rfl⟩ := (ihbody haccepts₁.distinct).1 hbody
        obtain ⟨⟨lines₁, p₄⟩, hrest, h⟩ := bind_eq_ok.1 h
        obtain ⟨hcomplete₃, htexts₃, haccepts₃, rfl, rfl⟩ := (ihrest haccepts₂.distinct).1 hrest
        obtain ⟨rfl, rfl⟩ := Prod.mk.inj (pure_eq_ok.1 h)
        refine ⟨⟨hcomplete₂, hcomplete₃⟩, ⟨htexts₁, htexts₂, htexts₃⟩,
          ⟨haccepts, haccepts₁, haccepts₂, haccepts₃⟩, ?_, rfl⟩
        simp only [LineEntries.build, Progress.behind, List.length_map]
        rfl
      · rintro ⟨⟨hcomplete₂, hcomplete₃⟩, ⟨htexts₁, htexts₂, htexts₃⟩,
          ⟨haccepts, haccepts₁, haccepts₂, haccepts₃⟩, rfl, rfl⟩
        refine bind_eq_ok.2 ⟨p.behind [(label, .subproof)],
          (Progress.register_eq_ok_iff hp .subproof).2 ⟨haccepts, rfl⟩, ?_⟩
        refine bind_eq_ok.2 ⟨_,
          (loadPremises_eq_ok_iff haccepts.distinct).2 ⟨htexts₁, haccepts₁, rfl, rfl⟩, ?_⟩
        refine bind_eq_ok.2 ⟨_,
          (ihbody haccepts₁.distinct).2 ⟨hcomplete₂, htexts₂, haccepts₂, rfl, rfl⟩, ?_⟩
        refine bind_eq_ok.2 ⟨_,
          (ihrest haccepts₂.distinct).2 ⟨hcomplete₃, htexts₃, haccepts₃, rfl, rfl⟩, ?_⟩
        simp only [LineEntries.build, Progress.behind, List.length_map]
        rfl

/-! ## Resolving citations -/

theorem resolve_eq_ok_iff {labels : Labels} {ofKind : Ref → Bool}
    {unknown : Option Label → LoadError} {dep : Entry Label} {r : Ref} :
    resolve labels ofKind unknown dep = .ok r ↔
      StepEntry.cited? labels dep = some r ∧ ofKind r = true := by
  cases dep with
  | error defect =>
      constructor
      · intro h
        cases h
      · rintro ⟨h, -⟩
        cases h
  | ok label =>
      have hcited : StepEntry.cited? labels (.ok label) = label.bind labels.get? := rfl
      rw [hcited, resolve, require]
      simp only [Except.mapError, bind, Except.bind]
      cases label.bind labels.get? with
      | none => simp
      | some r' =>
          by_cases hkind : ofKind r' = true
          · simp only [hkind, if_true, Except.ok.injEq, Option.some.injEq]
            exact ⟨fun h => ⟨h, h ▸ hkind⟩, fun h => h.1⟩
          · simp only [hkind, Option.some.injEq]
            refine ⟨nofun, ?_⟩
            rintro ⟨rfl, hr⟩
            exact absurd hr hkind

theorem mapM_resolve_eq_ok_iff {labels : Labels} {ofKind : Ref → Bool}
    {unknown : Option Label → LoadError} {deps : List (Entry Label)} {refs : List Ref} :
    deps.mapM (resolve labels ofKind unknown) = .ok refs ↔
      (∀ dep ∈ deps, ∃ r, StepEntry.cited? labels dep = some r ∧ ofKind r = true) ∧
        refs = deps.filterMap (StepEntry.cited? labels) := by
  induction deps generalizing refs with
  | nil =>
      rw [List.mapM_nil, pure_eq_ok]
      exact ⟨fun h => ⟨by simp, h.symm⟩, fun h => h.2.symm⟩
  | cons dep deps ih =>
      rw [mapM_cons_eq_ok, List.forall_mem_cons]
      constructor
      · rintro ⟨r, rs, hr, hrs, rfl⟩
        have hr := resolve_eq_ok_iff.1 hr
        obtain ⟨hdeps, rfl⟩ := ih.1 hrs
        exact ⟨⟨⟨r, hr⟩, hdeps⟩, (List.filterMap_cons_some hr.1).symm⟩
      · rintro ⟨⟨⟨r, hr⟩, hdeps⟩, rfl⟩
        exact ⟨r, _, resolve_eq_ok_iff.2 hr, ih.2 ⟨hdeps, rfl⟩, List.filterMap_cons_some hr.1⟩

theorem resolveStep_eq_ok_iff {labels : Labels} {entry : StepEntry} {content : Step} :
    resolveStep labels entry entry.outline = .ok content ↔
      entry.Resolves labels ∧ content = entry.cited labels := by
  constructor
  · intro h
    obtain ⟨lineDeps, hresolve, h⟩ := bind_eq_ok.1 h
    obtain ⟨hlines, rfl⟩ := mapM_resolve_eq_ok_iff.1 hresolve
    obtain ⟨subproofDeps, hresolve, h⟩ := bind_eq_ok.1 h
    obtain ⟨hsubproofs, rfl⟩ := mapM_resolve_eq_ok_iff.1 hresolve
    exact ⟨⟨hlines, hsubproofs⟩, (pure_eq_ok.1 h).symm⟩
  · rintro ⟨⟨hlines, hsubproofs⟩, rfl⟩
    exact bind_eq_ok.2 ⟨_, mapM_resolve_eq_ok_iff.2 ⟨hlines, rfl⟩,
      bind_eq_ok.2 ⟨_, mapM_resolve_eq_ok_iff.2 ⟨hsubproofs, rfl⟩, rfl⟩⟩

theorem resolveLines_eq_ok_iff {labels : Labels} {entries : LineEntries} {start : Int}
    {lines : Lines} :
    resolveLines labels entries (entries.build StepEntry.outline start) = .ok lines ↔
      (∀ entry ∈ entries.steps, entry.Resolves labels) ∧
        lines = entries.build (StepEntry.cited labels) start := by
  induction entries generalizing start lines with
  | nil => exact ⟨fun h => ⟨nofun, (Except.ok.inj h).symm⟩, fun h => congrArg _ h.2.symm⟩
  | defect d => exact ⟨fun h => ⟨nofun, (Except.ok.inj h).symm⟩, fun h => congrArg _ h.2.symm⟩
  | step entry rest ih =>
      rw [LineEntries.steps, List.forall_mem_cons]
      constructor
      · intro h
        obtain ⟨content, hcontent, h⟩ := bind_eq_ok.1 h
        obtain ⟨hentry, rfl⟩ := resolveStep_eq_ok_iff.1 hcontent
        obtain ⟨rest', hrest, h⟩ := bind_eq_ok.1 h
        obtain ⟨hsteps, rfl⟩ := ih.1 hrest
        exact ⟨⟨hentry, hsteps⟩, (pure_eq_ok.1 h).symm⟩
      · rintro ⟨⟨hentry, hsteps⟩, rfl⟩
        exact bind_eq_ok.2 ⟨_, resolveStep_eq_ok_iff.2 ⟨hentry, rfl⟩,
          bind_eq_ok.2 ⟨_, ih.2 ⟨hsteps, rfl⟩, rfl⟩⟩
  | subproof label premises body rest ihbody ihrest =>
      rw [LineEntries.steps, List.forall_mem_append]
      constructor
      · intro h
        obtain ⟨body', hbody, h⟩ := bind_eq_ok.1 h
        obtain ⟨hbodySteps, rfl⟩ := ihbody.1 hbody
        obtain ⟨rest', hrest, h⟩ := bind_eq_ok.1 h
        obtain ⟨hrestSteps, rfl⟩ := ihrest.1 hrest
        exact ⟨⟨hbodySteps, hrestSteps⟩, (pure_eq_ok.1 h).symm⟩
      · rintro ⟨⟨hbodySteps, hrestSteps⟩, rfl⟩
        exact bind_eq_ok.2 ⟨_, ihbody.2 ⟨hbodySteps, rfl⟩,
          bind_eq_ok.2 ⟨_, ihrest.2 ⟨hrestSteps, rfl⟩, rfl⟩⟩

/-! ## Whole documents -/

/-- The entries with their references. -/
def numbered (doc : Document) : List (Entry Label × Ref) := enumerate 1 doc.entries

/-- What the labels of a document stand for. -/
def labels (doc : Document) : Labels := labelled doc.numbered

/-- The derivation that a document describes. -/
def derivation (doc : Document) : Derivation where
  root := ⟨buildPremises 1 doc.premises,
    doc.lines.build (StepEntry.cited doc.labels) (1 + doc.premises.length)⟩
  nextId := 1 + doc.entries.length
  held := none

/-- What loading asks of a document. -/
structure Loadable (doc : Document) : Prop where
  premised : doc.premises ≠ []
  complete : doc.lines.Complete
  texts : ∀ text ∈ doc.texts, ∃ formula, loadFormula text = .ok formula
  labels : ∀ x ∈ doc.entries, ∃ label, x.1 = .ok label
  distinct : (doc.labels.map Prod.fst).Nodup
  resolves : ∀ entry ∈ doc.lines.steps, entry.Resolves doc.labels

/-- Loading gives the derivation of the document, if it can. -/
theorem load_eq_ok_iff {doc : Document} {d : Derivation} :
    doc.load = .ok d ↔ doc.Loadable ∧ d = doc.derivation := by
  have hstart : (⟨1, []⟩ : Progress).Distinct := List.nodup_nil
  have hbehind : ((⟨1, []⟩ : Progress).behind (doc.premises.map PremiseEntry.entry)).behind
      doc.lines.entries = ⟨1 + doc.entries.length, doc.labels⟩ := by
    rw [← Progress.behind_append]
    rfl
  constructor
  · intro h
    by_cases hpremised : doc.premises.isEmpty = true
    · rw [load, if_pos hpremised] at h
      cases h
    · rw [load, if_neg hpremised] at h
      obtain ⟨⟨premises, p₁⟩, hpremises, h⟩ := bind_eq_ok.1 h
      obtain ⟨htexts, haccepts, rfl, rfl⟩ := (loadPremises_eq_ok_iff hstart).1 hpremises
      obtain ⟨⟨outline, p₂⟩, houtline, h⟩ := bind_eq_ok.1 h
      obtain ⟨hcomplete, htexts', haccepts', rfl, rfl⟩ :=
        (loadLines_eq_ok_iff haccepts.distinct).1 houtline
      obtain ⟨lines, hlines, h⟩ := bind_eq_ok.1 h
      obtain ⟨hresolves, rfl⟩ := resolveLines_eq_ok_iff.1 hlines
      obtain ⟨hlabels, hdistinct⟩ := Progress.accepts_append.2 ⟨haccepts, haccepts'⟩
      rw [hbehind] at hresolves h
      refine ⟨⟨?_, hcomplete, List.forall_mem_append.2 ⟨htexts, htexts'⟩, hlabels, hdistinct,
        hresolves⟩, ?_⟩
      · exact fun hnil => hpremised (List.isEmpty_iff.2 hnil)
      · rw [← pure_eq_ok.1 h]
        simp only [derivation, Progress.behind, List.length_map]
  · rintro ⟨hdoc, rfl⟩
    obtain ⟨htexts, htexts'⟩ := List.forall_mem_append.1 hdoc.texts
    obtain ⟨haccepts, haccepts'⟩ := Progress.accepts_append.1
      (⟨hdoc.labels, hdoc.distinct⟩ : (⟨1, []⟩ : Progress).Accepts doc.entries)
    have hpremised : ¬ doc.premises.isEmpty = true :=
      fun hempty => hdoc.premised (List.isEmpty_iff.1 hempty)
    rw [load, if_neg hpremised]
    refine bind_eq_ok.2 ⟨_, (loadPremises_eq_ok_iff hstart).2 ⟨htexts, haccepts, rfl, rfl⟩, ?_⟩
    refine bind_eq_ok.2 ⟨_, (loadLines_eq_ok_iff haccepts.distinct).2
      ⟨hdoc.complete, htexts', haccepts', rfl, rfl⟩, ?_⟩
    dsimp only
    rw [hbehind]
    refine bind_eq_ok.2 ⟨_, resolveLines_eq_ok_iff.2 ⟨hdoc.resolves, rfl⟩, ?_⟩
    simp only [derivation, Progress.behind, List.length_map]
    rfl

/-! ## The derivation of a document -/

theorem refs_derivation (doc : Document) : doc.derivation.refs = doc.numbered.map Prod.snd := by
  have hrefs : doc.derivation.refs = (buildPremises 1 doc.premises).map Premise.ref ++
      (doc.lines.build (StepEntry.cited doc.labels) (1 + doc.premises.length)).parts :=
    Scope.refs_eq doc.derivation.root
  rw [hrefs, map_ref_buildPremises, parts_build, numbered, entries, enumerate_append,
    List.map_append, List.length_map]

theorem mem_refs_of_cited? {doc : Document} {dep : Entry Label} {r : Ref}
    (h : StepEntry.cited? doc.labels dep = some r) : r ∈ doc.derivation.refs := by
  obtain ⟨label, -, hget⟩ := Option.bind_eq_some_iff.1 h
  obtain ⟨label', hnumbered, -⟩ := mem_labelled.1 (mem_of_get? hget)
  rw [refs_derivation]
  exact List.mem_map_of_mem hnumbered

end Document

/-- Everything that a step cites is among the given references, lines and subproofs each in their
    place. -/
def Step.CitesAmong (refs : List Ref) (s : Step) : Prop :=
  (∀ dep ∈ s.lineDeps, dep.isLine = true ∧ dep ∈ refs) ∧
    ∀ dep ∈ s.subproofDeps, dep.isSubproof = true ∧ dep ∈ refs

namespace Document

theorem mem_cited {labels : Labels} {deps : List (Entry Label)} {r : Ref} :
    r ∈ (deps.filterMap (StepEntry.cited? labels)).eraseDups ↔
      ∃ dep ∈ deps, StepEntry.cited? labels dep = some r := by
  rw [List.mem_eraseDups, List.mem_filterMap]

/-- Every step of the derivation is that of an entry. -/
theorem exists_entry_of_step {doc : Document} {s : Int × Step}
    (h : s ∈ doc.derivation.root.lines.steps) :
    ∃ entry ∈ doc.lines.steps, entry.cited doc.labels = s.2 := by
  rw [← List.mem_map, ← steps_build (StepEntry.cited doc.labels) (1 + doc.premises.length)]
  exact List.mem_map_of_mem h

theorem Loadable.citesAmong {doc : Document} (h : doc.Loadable) :
    ∀ s ∈ doc.derivation.root.lines.steps, s.2.CitesAmong doc.derivation.refs := by
  have hkind : ∀ {deps : List (Entry Label)} {ofKind : Ref → Bool},
      (∀ dep ∈ deps, ∃ r, StepEntry.cited? doc.labels dep = some r ∧ ofKind r = true) →
      ∀ r ∈ (deps.filterMap (StepEntry.cited? doc.labels)).eraseDups,
        ofKind r = true ∧ r ∈ doc.derivation.refs := by
    intro deps ofKind hdeps r hr
    obtain ⟨dep, hdep, hcited⟩ := mem_cited.1 hr
    obtain ⟨r', hcited', hr'⟩ := hdeps dep hdep
    obtain rfl := Option.some.inj (hcited.symm.trans hcited')
    exact ⟨hr', mem_refs_of_cited? hcited⟩
  intro s hs
  obtain ⟨entry, hentry, heq⟩ := exists_entry_of_step hs
  obtain ⟨hlines, hsubproofs⟩ := h.resolves entry hentry
  rw [← heq]
  exact ⟨hkind hlines, hkind hsubproofs⟩

end Document

end Deduction
