import Deduction.Proofs.Reachable
import Deduction.Proofs.Reading
import Deduction.Proofs.Renumbering
import Deduction.Proofs.SavedData
import Mathlib

set_option autoImplicit false

/-! # Saving and loading

Loading what was saved numbers the parts of a derivation anew, in document order, and leaves
everything else as it is. It goes wrong only at a step that cites what is no part of the derivation,
or a part of the other kind. -/

namespace Deduction

theorem Ref.label_injective {a b : Ref} (h : a.label = b.label) : a = b := by
  have hchars := congrArg String.toList h
  -- the first character tells the kind
  cases a <;> cases b <;> simp [Ref.label, String.toList_inj, Int.repr_inj] at hchars ⊢ <;>
    exact hchars

namespace Document

/-! ## Numbers in document order -/

/-- The references get the numbers from one on. -/
def Enumerates (f : Int → Int) (refs : List Ref) : Prop :=
  ∀ (before : List Ref) (r : Ref) (after : List Ref), refs = before ++ r :: after →
    f r.id = before.length + 1

namespace Enumerates

variable {f : Int → Int} {refs : List Ref}

theorem injOn (h : Enumerates f refs) : Set.InjOn (Ref.renumber f) {r | r ∈ refs} := by
  intro r hr r' hr' heq
  obtain ⟨before, after, hsplit⟩ := List.append_of_mem hr
  obtain ⟨before', after', hsplit'⟩ := List.append_of_mem hr'
  have hid := congrArg Ref.id heq
  rw [Ref.id_renumber, Ref.id_renumber, h _ _ _ hsplit, h _ _ _ hsplit'] at hid
  have hlength : before.length = before'.length := by omega
  exact (List.cons.inj (List.append_inj (hsplit.symm.trans hsplit') hlength).2).1

end Enumerates

end Document

namespace Derivation

/-- The place of a part in document order, from one on. -/
def ordinal (d : Derivation) (id : Int) : Int := (d.refs.map Ref.id).idxOf id + 1

theorem WellFormed.enumerates {d : Derivation} (hd : d.WellFormed) :
    Document.Enumerates d.ordinal d.refs := by
  intro before r after hsplit
  have hnodup := hd.ids_nodup
  rw [ordinal]
  rw [hsplit, List.map_append, List.map_cons] at hnodup ⊢
  have hfresh : r.id ∉ before.map Ref.id := fun hr =>
    (List.nodup_append.1 hnodup).2.2 _ hr _ (List.mem_cons_self ..) rfl
  rw [List.idxOf_append_of_notMem hfresh, List.idxOf_cons_self, List.length_map, Nat.add_zero]

end Derivation

/-- What a part is among the entries of a document. -/
def Ref.kind : Ref → EntryKind
  | .premise _ => .premise
  | .step _ => .step
  | .subproof _ => .subproof

theorem Ref.ref_kind (f : Int → Int) (r : Ref) : r.kind.ref (f r.id) = r.renumber f := by
  cases r <;> rfl

namespace Document

/-! ## The entries of a saved document -/

theorem entries_dumpLines (L : Lines) :
    (dumpLines L).entries = L.parts.map fun r => (dumpLabel r, r.kind) := by
  induction L with
  | nil => rfl
  | step id content rest ih =>
      rw [dumpLines, LineEntries.entries, ih]
      rfl
  | subproof id premises body rest ihbody ihrest =>
      rw [dumpLines, LineEntries.entries, ihbody, ihrest, Lines.parts, List.map_cons, List.map_append,
        List.map_append, List.map_map, List.map_map]
      rfl

theorem entries_ofDerivation (d : Derivation) :
    (ofDerivation d).entries = d.refs.map fun r => (dumpLabel r, r.kind) := by
  have hrefs : d.refs = d.root.premises.map Premise.ref ++ d.root.lines.parts :=
    Scope.refs_eq d.root
  rw [hrefs, List.map_append, ← entries_dumpLines, List.map_map]
  show (d.root.premises.map dumpPremise).map PremiseEntry.entry ++ _ = _
  rw [List.map_map]
  rfl

theorem steps_dumpLines (L : Lines) :
    (dumpLines L).steps = L.steps.map fun s => dumpStep s.1 s.2 := by
  induction L with
  | nil => rfl
  | step id content rest ih =>
      rw [dumpLines, LineEntries.steps, ih]
      rfl
  | subproof id premises body rest ihbody ihrest =>
      rw [dumpLines, LineEntries.steps, ihbody, ihrest, Lines.steps, List.map_append]

theorem complete_dumpLines (L : Lines) : (dumpLines L).Complete := by
  induction L with
  | nil => trivial
  | step id content rest ih => exact ih
  | subproof id premises body rest ihbody ihrest => exact ⟨ihbody, ihrest⟩

variable {f : Int → Int}

theorem enumerate_saved {refs : List Ref} (done : List Ref) (start : Int)
    (hstart : start = done.length + 1) (henum : Enumerates f (done ++ refs)) :
    enumerate start (refs.map fun r => (dumpLabel r, r.kind)) =
      refs.map fun r => (dumpLabel r, r.renumber f) := by
  induction refs generalizing done start with
  | nil => rfl
  | cons r refs ih =>
      have htail := ih (done ++ [r]) (start + 1) (by simp [hstart]) (by simpa using henum)
      rw [List.map_cons, List.map_cons, enumerate, htail, ← r.ref_kind, henum done r refs rfl, hstart]

/-- The entry of a part gets the number of its place. -/
theorem numbered_ofDerivation {d : Derivation} (hd : d.WellFormed) :
    (ofDerivation d).numbered = d.refs.map fun r => (dumpLabel r, r.renumber d.ordinal) := by
  rw [numbered, entries_ofDerivation]
  exact enumerate_saved [] 1 rfl hd.enumerates

/-- What the labels of saved parts stand for. -/
def savedLabels (f : Int → Int) (refs : List Ref) : Labels :=
  refs.map fun r => (.text r.label, r.renumber f)

theorem labels_ofDerivation {d : Derivation} (hd : d.WellFormed) :
    (ofDerivation d).labels = savedLabels d.ordinal d.refs := by
  rw [labels, numbered_ofDerivation hd, labelled, List.filterMap_map]
  exact congrFun List.filterMap_eq_map d.refs

theorem nodup_savedLabels (f : Int → Int) {refs : List Ref} (h : refs.Nodup) :
    ((savedLabels f refs).map Prod.fst).Nodup := by
  rw [savedLabels, List.map_map]
  exact h.map fun r r' heq => Ref.label_injective (Label.Key.text.inj heq)

/-- A saved citation leads to the part that was cited. -/
theorem cited?_dumpLabel (f : Int → Int) (refs : List Ref) (dep : Ref) :
    StepEntry.cited? (savedLabels f refs) (dumpLabel dep) =
      if dep ∈ refs then some (dep.renumber f) else none := by
  show (refs.map fun r => (Label.Key.text r.label, r.renumber f)).lookup (.text dep.label) = _
  induction refs with
  | nil => rfl
  | cons r refs ih =>
      rw [List.map_cons, List.lookup_cons]
      by_cases hr : dep = r
      · simp [hr]
      · have hkey : (Label.Key.text dep.label == Label.Key.text r.label) = false :=
          beq_eq_false_iff_ne.2 fun h => hr (Ref.label_injective (Label.Key.text.inj h))
        rw [hkey, ih]
        simp [hr]

/-! ## The texts of a saved document -/

theorem loadFormula_render {formula : Option Formula} (h : ∀ g ∈ formula, g.Readable) :
    loadFormula (.ok (formula.map Formula.render)) = .ok formula := by
  cases formula with
  | none => rfl
  | some g =>
      have hparse := Formula.parse_of_readable (h g rfl)
      -- the text is not taken for a blank one, since the empty text is read as no formula
      have hne : g.render ≠ "" := by
        intro hempty
        rw [hempty] at hparse
        exact absurd hparse (by simp [Formula.parse, Token.scan, scanFrom, Formula.ofTokens, bind,
          Except.bind])
      exact loadFormula_eq_ok_iff.2 (.inr ⟨g.render, g, rfl, hne, hparse, rfl⟩)

theorem load_dumpedPremises {premises : List Premise}
    (hread : ∀ p ∈ premises, ∀ g ∈ p.formula, g.Readable) :
    ∀ text ∈ (premises.map dumpPremise).map PremiseEntry.text,
      ∃ formula, loadFormula text = .ok formula := by
  intro text htext
  rw [List.map_map] at htext
  obtain ⟨p, hp, rfl⟩ := List.mem_map.1 htext
  exact ⟨p.formula, loadFormula_render (hread p hp)⟩

theorem load_dumpedTexts {L : Lines} (hpremises : ∀ p ∈ L.premises, ∀ g ∈ p.formula, g.Readable)
    (hsteps : ∀ s ∈ L.steps, ∀ g ∈ s.2.conclusion, g.Readable) :
    ∀ text ∈ (dumpLines L).texts, ∃ formula, loadFormula text = .ok formula := by
  induction L with
  | nil => exact nofun
  | step id content rest ih =>
      obtain ⟨hcontent, hsteps⟩ := List.forall_mem_cons.1 hsteps
      refine List.forall_mem_cons.2 ⟨⟨content.conclusion, ?_⟩, ih hpremises hsteps⟩
      exact loadFormula_render hcontent
  | subproof id own body rest ihbody ihrest =>
      obtain ⟨hown, hpremises⟩ := List.forall_mem_append.1 hpremises
      obtain ⟨hbodyPremises, hrestPremises⟩ := List.forall_mem_append.1 hpremises
      obtain ⟨hbodySteps, hrestSteps⟩ := List.forall_mem_append.1 hsteps
      exact List.forall_mem_append.2 ⟨load_dumpedPremises hown, List.forall_mem_append.2
        ⟨ihbody hbodyPremises hbodySteps, ihrest hrestPremises hrestSteps⟩⟩

/-! ## The derivation of a saved document -/

theorem resolves_dumpStep {refs : List Ref} {id : Int} {content : Step} :
    (dumpStep id content).Resolves (savedLabels f refs) ↔ content.CitesAmong refs := by
  have hdep : ∀ {ofKind : Ref → Bool}, (∀ r, ofKind (Ref.renumber f r) = ofKind r) → ∀ dep : Ref,
      (∃ r, StepEntry.cited? (savedLabels f refs) (dumpLabel dep) = some r ∧ ofKind r = true) ↔
        ofKind dep = true ∧ dep ∈ refs := by
    intro ofKind hkind dep
    rw [cited?_dumpLabel]
    by_cases hmem : dep ∈ refs
    · simp [hmem, hkind]
    · simp [hmem]
  simp only [StepEntry.Resolves, dumpStep, List.forall_mem_map, hdep (Ref.isLine_renumber f),
    hdep (Ref.isSubproof_renumber f), Ref.mem_sorted]
  rfl

theorem filterMap_cited? {refs deps : List Ref} (h : ∀ dep ∈ deps, dep ∈ refs) :
    (deps.map dumpLabel).filterMap (StepEntry.cited? (savedLabels f refs)) =
      deps.map (Ref.renumber f) := by
  rw [List.filterMap_map, ← List.filterMap_eq_map]
  refine List.filterMap_congr fun dep hdep => ?_
  exact (cited?_dumpLabel f refs dep).trans (if_pos (h dep hdep))

theorem cited_dumpStep {refs : List Ref} {id : Int} {content : Step}
    (hcites : content.CitesAmong refs) (hread : ∀ g ∈ content.conclusion, g.Readable) :
    (dumpStep id content).cited (savedLabels f refs) = content.renumber f := by
  have hlines := filterMap_cited? (f := f)
    fun dep hdep => (hcites.1 dep (Ref.mem_sorted.1 hdep)).2
  have hsubproofs := filterMap_cited? (f := f)
    fun dep hdep => (hcites.2 dep (Ref.mem_sorted.1 hdep)).2
  rw [StepEntry.cited, dumpStep, hlines, hsubproofs, readFormula_of_load (loadFormula_render hread)]
  rfl

theorem buildPremises_dump {premises : List Premise} (done rest : List Ref) (start : Int)
    (hstart : start = done.length + 1)
    (henum : Enumerates f (done ++ (premises.map Premise.ref ++ rest)))
    (hread : ∀ p ∈ premises, ∀ g ∈ p.formula, g.Readable) :
    buildPremises start (premises.map dumpPremise) = premises.map (Premise.renumber f) := by
  induction premises generalizing done start with
  | nil => rfl
  | cons p premises ih =>
      obtain ⟨hp, hpremises⟩ := List.forall_mem_cons.1 hread
      have hid : f p.id = start := (henum done p.ref _ rfl).trans hstart.symm
      have htail := ih (done ++ [p.ref]) (start + 1) (by simp [hstart]) (by simpa using henum)
        hpremises
      rw [List.map_cons, List.map_cons, buildPremises, htail, Premise.renumber, hid]
      congr 2
      exact readFormula_of_load (loadFormula_render hp)

theorem build_dumpLines {content : StepEntry → Step} {L : Lines} (done rest : List Ref)
    (start : Int) (hstart : start = done.length + 1) (henum : Enumerates f (done ++ (L.parts ++ rest)))
    (hpremises : ∀ p ∈ L.premises, ∀ g ∈ p.formula, g.Readable)
    (hcontent : ∀ s ∈ L.steps, content (dumpStep s.1 s.2) = s.2.renumber f) :
    (dumpLines L).build content start = L.renumber f := by
  induction L generalizing done rest start with
  | nil => rfl
  | step id s tail ih =>
      obtain ⟨hs, hsteps⟩ := List.forall_mem_cons.1 hcontent
      have hid : f id = start := (henum done (.step id) _ rfl).trans hstart.symm
      have htail := ih (done ++ [Ref.step id]) rest (start + 1) (by simp [hstart])
        (by simpa [Lines.parts] using henum) hpremises hsteps
      rw [dumpLines, LineEntries.build, htail, hs, Lines.renumber, hid]
  | subproof id own body tail ihbody ihtail =>
      obtain ⟨hown, hpremises⟩ := List.forall_mem_append.1 hpremises
      obtain ⟨hbodyPremises, htailPremises⟩ := List.forall_mem_append.1 hpremises
      obtain ⟨hbodySteps, htailSteps⟩ := List.forall_mem_append.1 hcontent
      have hid : f id = start := (henum done (.subproof id) _ rfl).trans hstart.symm
      -- the numbers go on in document order: the subproof, its premises, its lines, the rest
      have hpremises := buildPremises_dump (done ++ [Ref.subproof id])
        (body.parts ++ (tail.parts ++ rest)) (start + 1) (by simp [hstart])
        (by simpa [Lines.parts] using henum) hown
      have hbody := ihbody (done ++ [Ref.subproof id] ++ own.map Premise.ref) (tail.parts ++ rest)
        (start + 1 + own.length) (by simp [hstart]; omega)
        (by simpa [Lines.parts] using henum) hbodyPremises hbodySteps
      have htail := ihtail (done ++ [Ref.subproof id] ++ own.map Premise.ref ++ body.parts) rest
        (start + 1 + own.length + body.parts.length) (by simp [hstart]; omega)
        (by simpa [Lines.parts] using henum) htailPremises htailSteps
      rw [dumpLines, LineEntries.build, List.length_map, entries_dumpLines, List.length_map, hpremises,
        hbody, htail, Lines.renumber, hid]

section

variable {d d' : Derivation} (hd : d.WellFormed)
  (hpremises : ∀ p ∈ d.root.premises ++ d.root.lines.premises, ∀ g ∈ p.formula, g.Readable)
  (hsteps : ∀ s ∈ d.root.lines.steps, ∀ g ∈ s.2.conclusion, g.Readable)

include hd hpremises hsteps

theorem loadable_ofDerivation :
    (ofDerivation d).Loadable ↔ ∀ s ∈ d.root.lines.steps, s.2.CitesAmong d.refs := by
  have hlabels := labels_ofDerivation hd
  have hresolves : (∀ entry ∈ (ofDerivation d).lines.steps, entry.Resolves (ofDerivation d).labels) ↔
      ∀ s ∈ d.root.lines.steps, s.2.CitesAmong d.refs := by
    rw [hlabels, ofDerivation, steps_dumpLines, List.forall_mem_map]
    exact forall₂_congr fun s _ => resolves_dumpStep
  obtain ⟨hroot, hnested⟩ := List.forall_mem_append.1 hpremises
  refine ⟨fun h => hresolves.1 h.resolves, fun hcites => ?_⟩
  refine ⟨?_, complete_dumpLines _, ?_, ?_, ?_, hresolves.2 hcites⟩
  · simpa [ofDerivation] using hd.premised
  · exact List.forall_mem_append.2 ⟨load_dumpedPremises hroot, load_dumpedTexts hnested hsteps⟩
  · rw [entries_ofDerivation, List.forall_mem_map]
    exact fun r _ => ⟨_, rfl⟩
  · rw [hlabels]
    exact nodup_savedLabels _ hd.nodup

theorem derivation_ofDerivation (hcites : ∀ s ∈ d.root.lines.steps, s.2.CitesAmong d.refs) :
    (ofDerivation d).derivation = d.renumber d.ordinal := by
  obtain ⟨hroot, hnested⟩ := List.forall_mem_append.1 hpremises
  have hrefs : d.refs = d.root.premises.map Premise.ref ++ d.root.lines.parts :=
    Scope.refs_eq d.root
  have henum := hd.enumerates
  rw [hrefs] at henum
  have hfirst := buildPremises_dump [] d.root.lines.parts 1 rfl henum hroot
  have hsecond := build_dumpLines (d.root.premises.map Premise.ref) []
    (1 + d.root.premises.length) (by simp [Int.add_comm]) (by simpa using henum) hnested
    fun s hs => cited_dumpStep (hcites s hs) (hsteps s hs)
  rw [derivation, labels_ofDerivation hd, entries_ofDerivation, List.length_map,
    Int.add_comm 1 (d.refs.length : Int), Derivation.renumber]
  simp only [ofDerivation, List.length_map, hfirst, hsecond]

/-- A saved derivation is loaded with its parts numbered in document order, if what its steps cite
    can be found. -/
theorem load_ofDerivation :
    (ofDerivation d).load = .ok d' ↔
      (∀ s ∈ d.root.lines.steps, s.2.CitesAmong d.refs) ∧ d' = d.renumber d.ordinal := by
  rw [load_eq_ok_iff, loadable_ofDerivation hd hpremises hsteps]
  refine and_congr_right fun hcites => ?_
  rw [derivation_ofDerivation hd hpremises hsteps hcites]

end

/-- The same through the data that is saved. -/
theorem loadValue_toValue {d d' : Derivation} (hd : d.WellFormed)
    (hread : ∀ r g, d.formulaOf r = some g → g.Readable) :
    loadValue d.toValue = .ok d' ↔
      (∀ s ∈ d.root.lines.steps, s.2.CitesAmong d.refs) ∧ d' = d.renumber d.ordinal := by
  have hpremises : ∀ p ∈ d.root.premises ++ d.root.lines.premises, ∀ g ∈ p.formula, g.Readable := by
    intro p hp g hg
    refine hread p.ref g ?_
    show (d.premise? p.ref).bind Premise.formula = some g
    rw [Derivation.premise?_of_mem hd.nodup hp]
    exact hg
  have hsteps : ∀ s ∈ d.root.lines.steps, ∀ g ∈ s.2.conclusion, g.Readable := by
    intro s hs g hg
    refine hread (.step s.1) g ?_
    rw [Derivation.formulaOf, (Derivation.step?_eq_some hd.nodup_parts).2 hs]
    exact hg
  have hdata : (ofValue d.toValue).mapError LoadError.defect = .ok (ofDerivation d) :=
    mapError_eq_ok.2 (ofValue_of_describes (describes_toValue d))
  rw [loadValue, hdata]
  exact load_ofDerivation hd hpremises hsteps

end Document

namespace Derivation

/-- Loading what was saved succeeds exactly if every step cites lines and subproofs that are there,
    and gives a derivation that corresponds to the one that was saved. -/
theorem reload_corresponds {d : Derivation} (hd : Reachable d)
    (hparsed : ∀ r f, d.formulaOf r = some f → ∃ text, Formula.parse text = .ok f) :
    ((∃ d', Document.loadValue d.toValue = .ok d') ↔
      ∀ r content, d.step? r = some content →
        (∀ dep ∈ content.lineDeps, dep.isLine = true ∧ d.contains dep = true) ∧
          ∀ dep ∈ content.subproofDeps, dep.isSubproof = true ∧ d.contains dep = true) ∧
      ∀ d', Document.loadValue d.toValue = .ok d' → ∃ σ, d.Corresponds σ d' := by
  have hwell := hd.wellFormed
  have hread : ∀ r g, d.formulaOf r = some g → g.Readable := by
    intro r g hg
    obtain ⟨text, htext⟩ := hparsed r g hg
    exact Formula.readable_of_parse htext
  refine ⟨⟨?_, ?_⟩, ?_⟩
  · rintro ⟨d', hd'⟩ r content hcontent
    have hcites := ((Document.loadValue_toValue hwell hread).1 hd').1
    cases r with
    | step id =>
        have hstep := hcites _ ((step?_eq_some hwell.nodup_parts).1 hcontent)
        simpa only [Step.CitesAmong, contains_iff] using hstep
    | premise id => exact absurd hcontent (by simp [step?])
    | subproof id => exact absurd hcontent (by simp [step?])
  · intro hcites
    refine ⟨_, (Document.loadValue_toValue hwell hread).2 ⟨fun s hs => ?_, rfl⟩⟩
    have hstep := hcites (.step s.1) s.2 ((step?_eq_some hwell.nodup_parts).2 hs)
    simpa only [Step.CitesAmong, contains_iff] using hstep
  · intro d' hd'
    obtain ⟨-, rfl⟩ := (Document.loadValue_toValue hwell hread).1 hd'
    exact ⟨_, corresponds_renumber hwell.enumerates.injOn⟩

/-- Numbers out of order and citations of both kinds. Removing the subproof that the last step cites
    leaves a derivation that cannot be loaded again. -/
theorem reload_corresponds_until_removed :
    let d := Derivation.blank.performAll [
      .addPremise (some (.var "P")) none,
      .removeLine (.premise 1),
      .addSubproof none false,
      .toggleDependency (.step 6) (.premise 3),
      .addStep ⟨some (.and (.var "P") (.var "Q")), .text "rule", [.step 6], [.subproof 4]⟩ none]
    let cut := d.perform (.removeSubproof (.subproof 4))
    d.refs = [.premise 3, .step 2, .subproof 4, .premise 5, .step 6, .step 7] ∧
      (∃ d' σ, Document.loadValue d.toValue = .ok d' ∧ d.Corresponds σ d') ∧
      cut.refs = [.premise 3, .step 2, .step 7] ∧
      ¬ ∃ d', Document.loadValue cut.toValue = .ok d' := by
  intro d cut
  have hd : Reachable d := Reachable.blank.performAll _
  have hparsed : ∀ r ∈ d.refs, ∀ f ∈ d.formulaOf r, Formula.parse f.render = .ok f := by
    decide +kernel
  have hcut : ∀ r ∈ cut.refs, ∀ f ∈ cut.formulaOf r, Formula.parse f.render = .ok f := by
    decide +kernel
  obtain ⟨hloads, hcorresponds⟩ := reload_corresponds hd
    fun r f hf => ⟨f.render, hparsed r (mem_refs_of_formulaOf hf) f hf⟩
  have hcites : ∀ r ∈ d.refs, ∀ content ∈ d.step? r,
      (∀ dep ∈ content.lineDeps, dep.isLine = true ∧ d.contains dep = true) ∧
        ∀ dep ∈ content.subproofDeps, dep.isSubproof = true ∧ d.contains dep = true := by decide
  obtain ⟨d', hd'⟩ := hloads.2 fun r content h => hcites r (mem_refs_of_step? h) content h
  obtain ⟨σ, hσ⟩ := hcorresponds d' hd'
  refine ⟨by decide, ⟨d', σ, hd', hσ⟩, by decide, fun hload => ?_⟩
  have hdangling := (reload_corresponds (hd.performed _)
    fun r f hf => ⟨f.render, hcut r (mem_refs_of_formulaOf hf) f hf⟩).1.1 hload (.step 7) _ rfl
  exact absurd (hdangling.2 (.subproof 4) (by decide)).2 (by decide)

end Derivation

end Deduction
