import Deduction.Proofs.SavedData
import Deduction.Proofs.WellFormed

set_option autoImplicit false

/-! # Documents that are rejected

Data of the right types is rejected exactly if the document that it describes has one of a few faults:
there is no premise, a label occurs twice, a step cites what is not there, or a text is no formula. All
other documents are loaded, and what their steps cite is found. -/

namespace Deduction

/-! ## Types -/

/-- A text or a whole number. -/
inductive Label.Plain : Label → Prop where
  | text (s : String) : Plain (.text s)
  | number (n : Int) : Plain (.number n)

/-- Whole numbers are compared by their values. -/
theorem Label.Key.ofInt_injective {m n : Int} (h : Key.ofInt m = Key.ofInt n) : m = n := by
  have hvalue := congrArg Dyadic.toRat (Key.number.inj h)
  simpa [Dyadic.toRat_ofIntWithPrec_eq_mul_two_pow] using hvalue

/-- Labels of documents are compared as they are, a number and its digits being two of them. -/
theorem Label.Plain.key_injective {a b : Label} (ha : a.Plain) (hb : b.Plain) (h : a.key = b.key) :
    a = b := by
  cases ha with
  | text s =>
      cases hb with
      | text t => exact congrArg Label.text (Key.text.inj h)
      | number n => cases h
  | number m =>
      cases hb with
      | text t => cases h
      | number n => exact congrArg Label.number (Key.ofInt_injective h)

namespace Document

/-- A label that may be missing, a text or a whole number. -/
def PlainLabel (entry : Entry Label) : Prop :=
  ∃ label : Option Label, entry = .ok label ∧ ∀ l ∈ label, l.Plain

/-- Nothing in the document is of a wrong type. -/
structure WellTyped (doc : Document) : Prop where
  complete : doc.lines.Complete
  texts : ∀ text ∈ doc.texts, ∃ content, text = .ok content
  labels : ∀ x ∈ doc.entries, PlainLabel x.1
  deps : ∀ entry ∈ doc.lines.steps, ∀ dep ∈ entry.lineDeps ++ entry.subproofDeps, PlainLabel dep

theorem plainLabel_of_isLabel {v : Value} {label : Option Label} (h : IsLabel v label) :
    PlainLabel (.ok label) := by
  refine ⟨label, rfl, ?_⟩
  cases h with
  | null => exact nofun
  | text s =>
      rintro l ⟨⟩
      exact .text s
  | number n =>
      rintro l ⟨⟩
      exact .number n

theorem plainLabel_of_areLabels {v : Value} {labels : List (Option Label)} (h : AreLabels v labels) :
    ∀ dep ∈ labels.map (.ok : Option Label → Entry Label), PlainLabel dep := by
  obtain ⟨h⟩ := h
  induction h with
  | nil => exact nofun
  | cons hlabel _ ih => exact List.forall_mem_cons.2 ⟨plainLabel_of_isLabel hlabel, ih⟩

theorem wellTyped_of_isPremise {v : Value} {entry : PremiseEntry} (h : IsPremise v entry) :
    (∃ content, entry.text = .ok content) ∧ PlainLabel entry.label := by
  cases h with
  | null => exact ⟨⟨none, rfl⟩, plainLabel_of_isLabel .null⟩
  | text s => exact ⟨⟨some s, rfl⟩, plainLabel_of_isLabel .null⟩
  | record hlabel htext => exact ⟨⟨_, rfl⟩, plainLabel_of_isLabel hlabel⟩

theorem wellTyped_of_arePremises {v : Value} {premises : List PremiseEntry}
    (h : ArePremises v premises) :
    (∀ text ∈ premises.map PremiseEntry.text, ∃ content, text = .ok content) ∧
      ∀ x ∈ premises.map PremiseEntry.entry, PlainLabel x.1 := by
  obtain ⟨h⟩ := h
  induction h with
  | nil => exact ⟨nofun, nofun⟩
  | cons hpremise _ ih =>
      obtain ⟨htext, hlabel⟩ := wellTyped_of_isPremise hpremise
      exact ⟨List.forall_mem_cons.2 ⟨htext, ih.1⟩, List.forall_mem_cons.2 ⟨hlabel, ih.2⟩⟩

theorem wellTyped_of_areLines {v : Value} {lines : LineEntries} (h : AreLines v lines) :
    lines.Complete ∧ (∀ text ∈ lines.texts, ∃ content, text = .ok content) ∧
      (∀ x ∈ lines.entries, PlainLabel x.1) ∧
      ∀ entry ∈ lines.steps, ∀ dep ∈ entry.lineDeps ++ entry.subproofDeps, PlainLabel dep := by
  induction h with
  | nil => exact ⟨trivial, nofun, nofun, nofun⟩
  | step _ hlabel _ hlineDeps hsubproofDeps _ ih =>
      obtain ⟨hcomplete, htexts, hlabels, hdeps⟩ := ih
      exact ⟨hcomplete, List.forall_mem_cons.2 ⟨⟨_, rfl⟩, htexts⟩,
        List.forall_mem_cons.2 ⟨plainLabel_of_isLabel hlabel, hlabels⟩,
        List.forall_mem_cons.2 ⟨List.forall_mem_append.2
          ⟨plainLabel_of_areLabels hlineDeps, plainLabel_of_areLabels hsubproofDeps⟩, hdeps⟩⟩
  | subproof _ hlabel hpremises _ _ ihbody ihrest =>
      obtain ⟨hpremiseTexts, hpremiseLabels⟩ := wellTyped_of_arePremises hpremises
      obtain ⟨hcomplete, htexts, hlabels, hdeps⟩ := ihbody
      obtain ⟨hcomplete', htexts', hlabels', hdeps'⟩ := ihrest
      exact ⟨⟨hcomplete, hcomplete'⟩,
        List.forall_mem_append.2 ⟨hpremiseTexts, List.forall_mem_append.2 ⟨htexts, htexts'⟩⟩,
        List.forall_mem_cons.2 ⟨plainLabel_of_isLabel hlabel,
          List.forall_mem_append.2 ⟨hpremiseLabels, List.forall_mem_append.2 ⟨hlabels, hlabels'⟩⟩⟩,
        List.forall_mem_append.2 ⟨hdeps, hdeps'⟩⟩

theorem wellTyped_of_describes {v : Value} {doc : Document} (h : Describes v doc) :
    doc.WellTyped := by
  cases h with
  | noPremises _ hlines =>
      obtain ⟨hcomplete, htexts, hlabels, hdeps⟩ := wellTyped_of_areLines hlines
      exact ⟨hcomplete, htexts, hlabels, hdeps⟩
  | document hpremises hlines =>
      obtain ⟨hpremiseTexts, hpremiseLabels⟩ := wellTyped_of_arePremises hpremises
      obtain ⟨hcomplete, htexts, hlabels, hdeps⟩ := wellTyped_of_areLines hlines
      exact ⟨hcomplete, List.forall_mem_append.2 ⟨hpremiseTexts, htexts⟩,
        List.forall_mem_append.2 ⟨hpremiseLabels, hlabels⟩, hdeps⟩

/-! ## No defects -/

/-- The outcome is no defect. -/
def NoDefect {α : Type} (x : Except LoadError α) : Prop := ∀ defect, x ≠ .error (.defect defect)

section

variable {α β : Type}

theorem noDefect_ok (a : α) : NoDefect (.ok a : Except LoadError α) := by
  intro defect h
  cases h

theorem NoDefect.bind {x : Except LoadError α} {next : α → Except LoadError β} (hx : NoDefect x)
    (hnext : ∀ a, NoDefect (next a)) : NoDefect (x >>= next) := by
  intro defect h
  rcases bind_eq_error.1 h with h | ⟨a, -, h⟩
  · exact hx defect h
  · exact hnext a defect h

theorem noDefect_mapM {fn : α → Except LoadError β} {xs : List α} (h : ∀ x ∈ xs, NoDefect (fn x)) :
    NoDefect (xs.mapM fn) := by
  induction xs with
  | nil => exact noDefect_ok []
  | cons x xs ih =>
      obtain ⟨hx, hxs⟩ := List.forall_mem_cons.1 h
      rw [List.mapM_cons]
      exact hx.bind fun y => (ih hxs).bind fun ys => noDefect_ok _

end

theorem noDefect_loadFormula {text : Entry String} (h : ∃ content, text = .ok content) :
    NoDefect (loadFormula text) := by
  obtain ⟨content, rfl⟩ := h
  intro defect herror
  rcases bind_eq_error.1 herror with herror | ⟨content', -, herror⟩
  · cases herror
  · cases content' with
    | none => cases herror
    | some s =>
        dsimp only at herror
        split at herror
        · cases herror
        · rcases bind_eq_error.1 herror with herror | ⟨f, -, herror⟩
          · obtain ⟨e, -, he⟩ := mapError_eq_error.1 herror
            cases he
          · cases herror

theorem noDefect_register {p : Progress} {entry : Entry Label} {r : Ref} (h : PlainLabel entry) :
    NoDefect (p.register entry r) := by
  obtain ⟨label, rfl, -⟩ := h
  intro defect herror
  rcases bind_eq_error.1 herror with herror | ⟨label', -, herror⟩
  · cases herror
  · cases label' with
    | none => cases herror
    | some l =>
        dsimp only at herror
        split at herror
        · cases herror
        · cases herror

theorem noDefect_loadPremises {p : Progress} {entries : List PremiseEntry}
    (htexts : ∀ text ∈ entries.map PremiseEntry.text, ∃ content, text = .ok content)
    (hlabels : ∀ x ∈ entries.map PremiseEntry.entry, PlainLabel x.1) :
    NoDefect (loadPremises p entries) := by
  induction entries generalizing p with
  | nil => exact noDefect_ok _
  | cons entry entries ih =>
      obtain ⟨htext, htexts⟩ := List.forall_mem_cons.1 htexts
      obtain ⟨hlabel, hlabels⟩ := List.forall_mem_cons.1 hlabels
      exact (noDefect_loadFormula htext).bind fun _ => (noDefect_register hlabel).bind fun _ =>
        (ih htexts hlabels).bind fun _ => noDefect_ok _

theorem noDefect_loadLines {p : Progress} {entries : LineEntries} (hcomplete : entries.Complete)
    (htexts : ∀ text ∈ entries.texts, ∃ content, text = .ok content)
    (hlabels : ∀ x ∈ entries.entries, PlainLabel x.1) :
    NoDefect (loadLines p entries) := by
  induction entries generalizing p with
  | nil => exact noDefect_ok _
  | defect d => exact hcomplete.elim
  | step entry rest ih =>
      obtain ⟨htext, htexts⟩ := List.forall_mem_cons.1 htexts
      obtain ⟨hlabel, hlabels⟩ := List.forall_mem_cons.1 hlabels
      exact (noDefect_loadFormula htext).bind fun _ => (noDefect_register hlabel).bind fun _ =>
        (ih hcomplete htexts hlabels).bind fun _ => noDefect_ok _
  | subproof label premises body rest ihbody ihrest =>
      obtain ⟨hbody, hrest⟩ := hcomplete
      obtain ⟨hpremiseTexts, htexts⟩ := List.forall_mem_append.1 htexts
      obtain ⟨hbodyTexts, hrestTexts⟩ := List.forall_mem_append.1 htexts
      obtain ⟨hlabel, hlabels⟩ := List.forall_mem_cons.1 hlabels
      obtain ⟨hpremiseLabels, hlabels⟩ := List.forall_mem_append.1 hlabels
      obtain ⟨hbodyLabels, hrestLabels⟩ := List.forall_mem_append.1 hlabels
      exact (noDefect_register hlabel).bind fun _ =>
        (noDefect_loadPremises hpremiseTexts hpremiseLabels).bind fun _ =>
          (ihbody hbody hbodyTexts hbodyLabels).bind fun _ =>
            (ihrest hrest hrestTexts hrestLabels).bind fun _ => noDefect_ok _

theorem noDefect_resolve {labels : Labels} {ofKind : Ref → Bool}
    {unknown : Option Label → LoadError} (hunknown : ∀ label defect, unknown label ≠ .defect defect)
    {dep : Entry Label} (h : PlainLabel dep) : NoDefect (resolve labels ofKind unknown dep) := by
  obtain ⟨label, rfl, -⟩ := h
  intro defect herror
  rcases bind_eq_error.1 herror with herror | ⟨label', -, herror⟩
  · cases herror
  · split at herror
    · exact hunknown _ _ (Except.error.inj herror)
    · split at herror
      · cases herror
      · exact hunknown _ _ (Except.error.inj herror)

theorem noDefect_resolveStep {labels : Labels} {entry : StepEntry} {content : Step}
    (h : ∀ dep ∈ entry.lineDeps ++ entry.subproofDeps, PlainLabel dep) :
    NoDefect (resolveStep labels entry content) := by
  obtain ⟨hlines, hsubproofs⟩ := List.forall_mem_append.1 h
  refine NoDefect.bind (noDefect_mapM fun dep hdep => ?_) fun _ =>
    NoDefect.bind (noDefect_mapM fun dep hdep => ?_) fun _ => noDefect_ok _
  · exact noDefect_resolve (by simp) (hlines dep hdep)
  · exact noDefect_resolve (by simp) (hsubproofs dep hdep)

theorem noDefect_resolveLines {labels : Labels} {entries : LineEntries} {lines : Lines}
    (h : ∀ entry ∈ entries.steps, ∀ dep ∈ entry.lineDeps ++ entry.subproofDeps, PlainLabel dep) :
    NoDefect (resolveLines labels entries lines) := by
  fun_induction resolveLines labels entries lines with
  | case1 entry entries id content rest ih =>
      obtain ⟨hentry, hentries⟩ := List.forall_mem_cons.1 h
      exact (noDefect_resolveStep hentry).bind fun _ => (ih hentries).bind fun _ => noDefect_ok _
  | case2 label premises inner entries id premises' body rest ihbody ihrest =>
      obtain ⟨hinner, hentries⟩ := List.forall_mem_append.1 h
      exact (ihbody hinner).bind fun _ => (ihrest hentries).bind fun _ => noDefect_ok _
  | case3 => exact noDefect_ok _

theorem WellTyped.noDefect_load {doc : Document} (h : doc.WellTyped) : NoDefect doc.load := by
  obtain ⟨hpremiseTexts, hlineTexts⟩ := List.forall_mem_append.1 h.texts
  obtain ⟨hpremiseLabels, hlineLabels⟩ := List.forall_mem_append.1 h.labels
  by_cases hpremised : doc.premises.isEmpty = true
  · rw [load, if_pos hpremised]
    intro defect herror
    cases herror
  · rw [load, if_neg hpremised]
    exact (noDefect_loadPremises hpremiseTexts hpremiseLabels).bind fun _ =>
      (noDefect_loadLines h.complete hlineTexts hlineLabels).bind fun _ =>
        (noDefect_resolveLines h.deps).bind fun _ => noDefect_ok _

/-! ## Faults -/

/-- The label is that of the entry which has the reference. -/
def Names (doc : Document) (dep : Entry Label) (r : Ref) : Prop :=
  ∃ label, dep = .ok (some label) ∧ (dep, r) ∈ doc.numbered

/-- What may be wrong with a document of the right types. -/
inductive Faulty (doc : Document) : Prop where
  | noPremises (h : doc.premises = [])
  /-- Two entries have the same label. -/
  | repeatedLabel {i j : Nat} {label : Label} {kind kind' : EntryKind} (hne : i ≠ j)
      (hi : doc.entries[i]? = some (.ok (some label), kind))
      (hj : doc.entries[j]? = some (.ok (some label), kind'))
  /-- What a step cites as a line is neither a premise nor a step. -/
  | unknownLine {entry : StepEntry} {dep : Entry Label} (hentry : entry ∈ doc.lines.steps)
      (hdep : dep ∈ entry.lineDeps) (h : ¬ ∃ r, doc.Names dep r ∧ r.isLine = true)
  /-- What a step cites as a subproof is none. -/
  | unknownSubproof {entry : StepEntry} {dep : Entry Label} (hentry : entry ∈ doc.lines.steps)
      (hdep : dep ∈ entry.subproofDeps) (h : ¬ ∃ r, doc.Names dep r ∧ r.isSubproof = true)
  /-- The text of a premise or a conclusion is no formula. -/
  | unparsable {text : String} (htext : .ok (some text) ∈ doc.texts) (hne : text ≠ "")
      (h : ¬ ∃ f, Formula.parse text = .ok f)

theorem exists_loadFormula_iff {content : Option String} :
    (∃ formula, loadFormula (.ok content) = .ok formula) ↔
      ∀ text, content = some text → text ≠ "" → ∃ f, Formula.parse text = .ok f := by
  constructor
  · rintro ⟨formula, h⟩ text rfl hne
    rcases loadFormula_eq_ok_iff.1 h with ⟨hblank | hblank, -⟩ | ⟨s, f, hs, -, hparse, -⟩
    · cases hblank
    · cases hblank
      exact absurd rfl hne
    · cases hs
      exact ⟨f, hparse⟩
  · intro h
    cases content with
    | none => exact ⟨none, rfl⟩
    | some text =>
        by_cases hne : text = ""
        · rw [hne]
          exact ⟨none, rfl⟩
        · obtain ⟨f, hparse⟩ := h text rfl hne
          exact ⟨some f, loadFormula_eq_ok_iff.2 (.inr ⟨text, f, rfl, hne, hparse, rfl⟩)⟩

theorem map_fst_enumerate (start : Int) (xs : Entries) :
    (enumerate start xs).map Prod.fst = xs.map Prod.fst := by
  induction xs generalizing start with
  | nil => rfl
  | cons x xs ih => rw [enumerate, List.map_cons, ih, List.map_cons]

theorem map_fst_labels (doc : Document) :
    doc.labels.map Prod.fst = doc.entries.filterMap fun x => (labelOf x.1).map Label.key := by
  have hkeys : (fun x : Entry Label × Ref =>
      ((labelOf x.1).map fun label => (label.key, x.2)).map Prod.fst) =
      (fun entry => (labelOf entry).map Label.key) ∘ Prod.fst := by
    funext x
    rw [Option.map_map]
    rfl
  rw [labels, labelled, List.map_filterMap, hkeys, ← List.filterMap_map, numbered, map_fst_enumerate,
    List.filterMap_map]
  rfl

section

variable {doc : Document} (hdoc : doc.WellTyped)

include hdoc

theorem nodup_labels_iff :
    (doc.labels.map Prod.fst).Nodup ↔ ∀ (i j : Nat) (label : Label) (kind kind' : EntryKind),
      doc.entries[i]? = some (.ok (some label), kind) →
      doc.entries[j]? = some (.ok (some label), kind') → i = j := by
  rw [map_fst_labels, List.Nodup, List.pairwise_filterMap, List.pairwise_iff_getElem]
  constructor
  · intro h i j label kind kind' hi hj
    obtain ⟨hi', hi⟩ := List.getElem?_eq_some_iff.1 hi
    obtain ⟨hj', hj⟩ := List.getElem?_eq_some_iff.1 hj
    by_contra hne
    rcases Nat.lt_or_gt_of_ne hne with hlt | hlt
    · exact h i j hi' hj' hlt label.key (by rw [hi]; rfl) label.key (by rw [hj]; rfl) rfl
    · exact h j i hj' hi' hlt label.key (by rw [hj]; rfl) label.key (by rw [hi]; rfl) rfl
  · intro h i j hi hj hlt key hkey key' hkey' heq
    obtain ⟨label, hlabel, rfl⟩ := Option.map_eq_some_iff.1 hkey
    obtain ⟨label', hlabel', rfl⟩ := Option.map_eq_some_iff.1 hkey'
    rw [labelOf_eq_some_iff] at hlabel hlabel'
    -- keys of plain labels tell them apart
    have hplain : ∀ {k : Nat} (hk : k < doc.entries.length) {l : Label},
        doc.entries[k].1 = .ok (some l) → l.Plain := by
      intro k hk l hl
      obtain ⟨_, hok, hplain⟩ := hdoc.labels _ (List.getElem_mem hk)
      rw [hl] at hok
      cases hok
      exact hplain l rfl
    obtain rfl := (hplain hi hlabel).key_injective (hplain hj hlabel') heq
    have hij := h i j label doc.entries[i].2 doc.entries[j].2
      (List.getElem?_eq_some_iff.2 ⟨hi, Prod.ext hlabel rfl⟩)
      (List.getElem?_eq_some_iff.2 ⟨hj, Prod.ext hlabel' rfl⟩)
    omega

/-- A citation leads to the entry that it names. -/
theorem cited?_eq_some_iff (hdistinct : (doc.labels.map Prod.fst).Nodup) {dep : Entry Label}
    (hdep : PlainLabel dep) {r : Ref} :
    StepEntry.cited? doc.labels dep = some r ↔ doc.Names dep r := by
  obtain ⟨label, rfl, hplain⟩ := hdep
  cases label with
  | none =>
      refine ⟨nofun, ?_⟩
      rintro ⟨label, hlabel, -⟩
      cases hlabel
  | some label =>
      have hcited : StepEntry.cited? doc.labels (.ok (some label)) = doc.labels.get? label := rfl
      rw [hcited, get?_eq_some_iff hdistinct, labels, mem_labelled]
      constructor
      · rintro ⟨label', hmem, hkey⟩
        have hentry : (.ok (some label') : Entry Label) ∈ doc.entries.map Prod.fst := by
          rw [← map_fst_enumerate 1]
          exact List.mem_map_of_mem hmem
        obtain ⟨x, hx, hfst⟩ := List.mem_map.1 hentry
        obtain ⟨_, hok, hplain'⟩ := hdoc.labels x hx
        cases hfst.symm.trans hok
        obtain rfl := (hplain' label' rfl).key_injective (hplain label rfl) hkey
        exact ⟨label', rfl, hmem⟩
      · rintro ⟨label', hlabel, hmem⟩
        exact ⟨label, hmem, rfl⟩

theorem resolves_iff (hdistinct : (doc.labels.map Prod.fst).Nodup) {entry : StepEntry}
    (hentry : entry ∈ doc.lines.steps) :
    entry.Resolves doc.labels ↔
      (∀ dep ∈ entry.lineDeps, ∃ r, doc.Names dep r ∧ r.isLine = true) ∧
        ∀ dep ∈ entry.subproofDeps, ∃ r, doc.Names dep r ∧ r.isSubproof = true := by
  obtain ⟨hlines, hsubproofs⟩ := List.forall_mem_append.1 (hdoc.deps entry hentry)
  refine and_congr (forall₂_congr fun dep hdep => ?_) (forall₂_congr fun dep hdep => ?_)
  · simp only [cited?_eq_some_iff hdoc hdistinct (hlines dep hdep)]
  · simp only [cited?_eq_some_iff hdoc hdistinct (hsubproofs dep hdep)]

/-- What loading asks of a document of the right types is that it has no fault. -/
theorem loadable_iff : doc.Loadable ↔ ¬ doc.Faulty := by
  constructor
  · intro hload hfaulty
    have hdistinct := hload.distinct
    cases hfaulty with
    | noPremises h => exact hload.premised h
    | repeatedLabel hne hi hj =>
        exact hne ((nodup_labels_iff hdoc).1 hdistinct _ _ _ _ _ hi hj)
    | unknownLine hentry hdep h =>
        exact h (((resolves_iff hdoc hdistinct hentry).1 (hload.resolves _ hentry)).1 _ hdep)
    | unknownSubproof hentry hdep h =>
        exact h (((resolves_iff hdoc hdistinct hentry).1 (hload.resolves _ hentry)).2 _ hdep)
    | unparsable htext hne h => exact h (exists_loadFormula_iff.1 (hload.texts _ htext) _ rfl hne)
  · intro hfaultless
    have hdistinct : (doc.labels.map Prod.fst).Nodup := by
      rw [nodup_labels_iff hdoc]
      intro i j label kind kind' hi hj
      by_contra hne
      exact hfaultless (.repeatedLabel hne hi hj)
    refine ⟨fun h => hfaultless (.noPremises h), hdoc.complete, ?_, ?_, hdistinct, ?_⟩
    · intro text htext
      obtain ⟨content, rfl⟩ := hdoc.texts text htext
      rw [exists_loadFormula_iff]
      rintro s rfl hne
      by_contra hparse
      exact hfaultless (.unparsable htext hne hparse)
    · intro x hx
      obtain ⟨label, hlabel, -⟩ := hdoc.labels x hx
      exact ⟨label, hlabel⟩
    · intro entry hentry
      rw [resolves_iff hdoc hdistinct hentry]
      constructor
      · intro dep hdep
        by_contra hunknown
        exact hfaultless (.unknownLine hentry hdep hunknown)
      · intro dep hdep
        by_contra hunknown
        exact hfaultless (.unknownSubproof hentry hdep hunknown)

end

/-! ## What is loaded -/

/-- The references are those of the entries that the labels name. -/
def Resolved (doc : Document) (deps : List (Entry Label)) (refs : List Ref) : Prop :=
  (∀ dep ∈ deps, ∃ r ∈ refs, doc.Names dep r) ∧ ∀ r ∈ refs, ∃ dep ∈ deps, doc.Names dep r

/-- The step cites what its entry names. -/
def ResolvedStep (doc : Document) (entry : StepEntry) (content : Step) : Prop :=
  doc.Resolved entry.lineDeps content.lineDeps ∧
    doc.Resolved entry.subproofDeps content.subproofDeps

theorem resolved_cited {doc : Document} (hdoc : doc.WellTyped)
    (hdistinct : (doc.labels.map Prod.fst).Nodup) {deps : List (Entry Label)} {ofKind : Ref → Bool}
    (hplain : ∀ dep ∈ deps, PlainLabel dep)
    (hfound : ∀ dep ∈ deps, ∃ r, doc.Names dep r ∧ ofKind r = true) :
    doc.Resolved deps (deps.filterMap (StepEntry.cited? doc.labels)).eraseDups := by
  constructor
  · intro dep hdep
    obtain ⟨r, hr, -⟩ := hfound dep hdep
    have hcited := (cited?_eq_some_iff hdoc hdistinct (hplain dep hdep)).2 hr
    exact ⟨r, mem_cited.2 ⟨dep, hdep, hcited⟩, hr⟩
  · intro r hr
    obtain ⟨dep, hdep, hcited⟩ := mem_cited.1 hr
    exact ⟨dep, hdep, (cited?_eq_some_iff hdoc hdistinct (hplain dep hdep)).1 hcited⟩

theorem resolvedSteps_derivation {doc : Document} (hdoc : doc.WellTyped) (hload : doc.Loadable) :
    List.Forall₂ doc.ResolvedStep doc.lines.steps
      (doc.derivation.root.lines.steps.map Prod.snd) := by
  have hdistinct := hload.distinct
  have hsteps : doc.derivation.root.lines.steps.map Prod.snd =
      doc.lines.steps.map (StepEntry.cited doc.labels) := steps_build _ _ _
  rw [hsteps, List.forall₂_map_right_iff, List.forall₂_same]
  intro entry hentry
  obtain ⟨hlines, hsubproofs⟩ :=
    (resolves_iff hdoc hdistinct hentry).1 (hload.resolves entry hentry)
  obtain ⟨hplain, hplain'⟩ := List.forall_mem_append.1 (hdoc.deps entry hentry)
  exact ⟨resolved_cited hdoc hdistinct hplain hlines,
    resolved_cited hdoc hdistinct hplain' hsubproofs⟩

/-- Data of the right types is rejected exactly if the document has a fault. Otherwise its entries are
    the parts of the derivation, in order, each step cites what its entry names, and what it cites is
    there, lines and subproofs each in their place. -/
theorem loadValue_rejects_exactly {v : Value} {doc : Document} (h : Describes v doc) :
    ((∃ e, loadValue v = .error e ∧ ∀ defect, e ≠ .defect defect) ↔ doc.Faulty) ∧
      (¬ doc.Faulty → ∃ d, loadValue v = .ok d ∧ d.refs = doc.numbered.map Prod.snd ∧
        List.Forall₂ doc.ResolvedStep doc.lines.steps (d.root.lines.steps.map Prod.snd) ∧
        ∀ r content, d.step? r = some content →
          (∀ dep ∈ content.lineDeps, dep.isLine = true ∧ d.contains dep = true) ∧
            ∀ dep ∈ content.subproofDeps, dep.isSubproof = true ∧ d.contains dep = true) := by
  have hdoc := wellTyped_of_describes h
  have hvalue : loadValue v = doc.load := by
    rw [loadValue, ofValue_of_describes h]
    rfl
  rw [hvalue]
  constructor
  · constructor
    · rintro ⟨e, he, -⟩
      by_contra hfaultless
      rw [load_eq_ok_iff.2 ⟨(loadable_iff hdoc).2 hfaultless, rfl⟩] at he
      cases he
    · intro hfaulty
      cases hload : doc.load with
      | ok d => exact absurd hfaulty ((loadable_iff hdoc).1 (load_eq_ok_iff.1 hload).1)
      | error e =>
          refine ⟨e, rfl, fun defect hdefect => ?_⟩
          exact hdoc.noDefect_load defect (hload.trans (congrArg _ hdefect))
  · intro hfaultless
    have hload := (loadable_iff hdoc).2 hfaultless
    exact ⟨doc.derivation, load_eq_ok_iff.2 ⟨hload, rfl⟩, refs_derivation doc,
      resolvedSteps_derivation hdoc hload, hload.wellFormed.citesAmong_iff.1 hload.citesAmong⟩

/-- A step cites a line of a later subproof. Labelling that line like a premise makes a fault. -/
theorem loadValue_rejects_exactly_relabelled :
    let data : Value → Value := fun label => .record [
      ("premises", .list [.text "P", .null, .record [("id", .number 7), ("expr", .text "P -> Q")]]),
      ("lines", .list [
        .record [("id", .text "a"), ("conclusion", .text "R"),
          ("deps", .list [.text "b", .number 7]), ("subproof_deps", .list [.text "s"])],
        .record [("id", .text "s"), ("subproof", .record [("premises", .list [.text "R"]),
          ("lines", .list [.record [("id", label), ("conclusion", .text "")]])])]])]
    let doc : Label → Document := fun label => ⟨
      [⟨.ok none, .ok (some "P")⟩, ⟨.ok none, .ok none⟩,
        ⟨.ok (some (.number 7)), .ok (some "P -> Q")⟩],
      .step ⟨.ok (some (.text "a")), .ok (some "R"), .null,
          [.ok (some (.text "b")), .ok (some (.number 7))], [.ok (some (.text "s"))]⟩ <|
        .subproof (.ok (some (.text "s"))) [⟨.ok none, .ok (some "R")⟩]
          (.step ⟨.ok (some label), .ok (some ""), .null, [], []⟩ .nil) .nil⟩
    Describes (data (.text "b")) (doc (.text "b")) ∧
      Describes (data (.number 7)) (doc (.number 7)) ∧
      (∃ d, loadValue (data (.text "b")) = .ok d ∧
        d.refs = [.premise 1, .premise 2, .premise 3, .step 4, .subproof 5, .premise 6, .step 7] ∧
        ∃ content, d.step? (.step 4) = some content ∧ content.lineDeps = [.step 7, .premise 3] ∧
          content.subproofDeps = [.subproof 5] ∧
          ∀ dep ∈ content.lineDeps, dep.isLine = true ∧ d.contains dep = true) ∧
      ∃ e, loadValue (data (.number 7)) = .error e ∧ ∀ defect, e ≠ .defect defect := by
  intro data doc
  have hdescribes : ∀ {v : Value} {label : Label}, IsLabel v (some label) →
      Describes (data v) (doc label) := by
    intro v label hlabel
    have hbody : AreLines (.list [.record [("id", v), ("conclusion", .text "")]])
        (.step ⟨.ok (some label), .ok (some ""), .null, [], []⟩ .nil) :=
      @AreLines.step _ _ _ [] [] _ _ rfl hlabel (.text "") (.list .nil) (.list .nil) .nil
    refine .document (.list (.cons (.text "P") (.cons .null
      (.cons (.record (.number 7) (.text _)) .nil)))) ?_
    exact @AreLines.step _ _ _ [some (.text "b"), some (.number 7)] [some (.text "s")] _ _ rfl
      (.text "a") (.text "R") (.list (.cons (.text "b") (.cons (.number 7) .nil)))
      (.list (.cons (.text "s") .nil))
      (.subproof rfl (.text "s") (.list (.cons (.text "R") .nil)) hbody .nil)
  have hlabelled := hdescribes (.text "b")
  have hrepeated := hdescribes (.number 7)
  refine ⟨hlabelled, hrepeated, ?_, ?_⟩
  · have hcited : ((loadValue (data (.text "b"))).toOption.bind (·.step? (.step 4))).map
        (fun content => (content.lineDeps, content.subproofDeps)) =
        some ([.step 7, .premise 3], [.subproof 5]) := by decide +kernel
    obtain ⟨hrejects, hloads⟩ := loadValue_rejects_exactly hlabelled
    have hfaultless : ¬ (doc (.text "b")).Faulty := by
      intro hfaulty
      obtain ⟨e, he, -⟩ := hrejects.2 hfaulty
      rw [he] at hcited
      cases hcited
    obtain ⟨d, hd, hrefs, -, hcites⟩ := hloads hfaultless
    rw [hd] at hcited
    obtain ⟨content, hcontent, hdeps⟩ := Option.map_eq_some_iff.1 hcited
    obtain ⟨hlines, hsubproofs⟩ := Prod.mk.inj hdeps
    refine ⟨d, hd, hrefs.trans rfl, content, hcontent, hlines, hsubproofs, ?_⟩
    exact (hcites (.step 4) content hcontent).1
  · have hne : (2 : Nat) ≠ 6 := by decide
    exact (loadValue_rejects_exactly hrepeated).1.2 (.repeatedLabel hne rfl rfl)

end Document

end Deduction
