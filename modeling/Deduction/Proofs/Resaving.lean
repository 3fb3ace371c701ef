import Deduction.Proofs.RoundTrip

set_option autoImplicit false

/-! # Saving what was loaded

Loading a document numbers its entries from one in document order, so that the numbers of a loaded
derivation are the places of its parts, and its formulas are ones that can be read. What is saved of it
is therefore a normal form: loading and saving it once more changes nothing. -/

namespace Deduction

/-! ## Lists in order -/

theorem eraseDups_of_nodup {α : Type} [DecidableEq α] {xs : List α} (h : xs.Nodup) :
    xs.eraseDups = xs := by
  induction xs with
  | nil => rfl
  | cons x xs ih =>
      obtain ⟨hx, hxs⟩ := List.nodup_cons.1 h
      have hfilter : xs.filter (fun y => !y == x) = xs := by
        rw [List.filter_eq_self]
        intro y hy
        have hne : y ≠ x := fun heq => hx (heq ▸ hy)
        simp [hne]
      rw [List.eraseDups_cons, hfilter, ih hxs]

theorem Ref.sorted_sorted (refs : List Ref) : Ref.sorted (Ref.sorted refs) = Ref.sorted refs := by
  have hpairwise : (Ref.sorted refs).Pairwise fun a b => decide (a.id ≤ b.id) = true := by
    refine List.pairwise_mergeSort ?_ ?_ _
    · intro a b c hab hbc
      simp only [decide_eq_true_eq] at hab hbc ⊢
      omega
    · intro a b
      simp only [Bool.or_eq_true, decide_eq_true_eq]
      omega
  have hnodup := eraseDups_of_nodup (Ref.nodup_sorted refs)
  calc Ref.sorted (Ref.sorted refs)
      = (Ref.sorted refs).mergeSort fun a b => decide (a.id ≤ b.id) := by
        rw [Ref.sorted, hnodup]
    _ = Ref.sorted refs := List.mergeSort_of_pairwise hpairwise

/-! ## Numbers that stay -/

theorem Ref.renumber_eq_self {f : Int → Int} {r : Ref} (h : f r.id = r.id) : r.renumber f = r := by
  rw [← r.ref_kind, h]
  cases r <;> rfl

theorem Numbered.id_of_getElem? {start stop : Int} {rs : List Ref} (h : Numbered start stop rs)
    {i : Nat} {r : Ref} (hr : rs[i]? = some r) : r.id = start + i := by
  induction rs generalizing start i with
  | nil => cases hr
  | cons r' rs ih =>
      cases i with
      | zero =>
          obtain rfl := Option.some.inj hr
          exact h.1.trans (Int.add_zero start).symm
      | succ i =>
          have hid := ih h.2 hr
          omega

/-- In a derivation that is numbered from one the number of a part is its place. -/
theorem Derivation.ordinal_eq_self {d : Derivation} (hd : d.WellFormed) {stop : Int}
    (h : Numbered 1 stop d.refs) : ∀ r ∈ d.refs, d.ordinal r.id = r.id := by
  intro r hr
  obtain ⟨before, after, hsplit⟩ := List.append_of_mem hr
  have hat : d.refs[before.length]? = some r := by
    rw [hsplit]
    simp
  have hid := h.id_of_getElem? hat
  rw [hd.enumerates before r after hsplit]
  omega

section

variable {f : Int → Int} {refs : List Ref} (hfix : ∀ r ∈ refs, f r.id = r.id)

include hfix

theorem sorted_renumbered {deps : List Ref} (hdeps : ∀ dep ∈ deps, dep ∈ refs) :
    Ref.sorted ((Ref.sorted deps).map (Ref.renumber f)).eraseDups = Ref.sorted deps := by
  have hself : ∀ dep ∈ Ref.sorted deps, dep.renumber f = dep := fun dep hdep =>
    Ref.renumber_eq_self (hfix dep (hdeps dep (Ref.mem_sorted.1 hdep)))
  have hmap : (Ref.sorted deps).map (Ref.renumber f) = Ref.sorted deps :=
    (List.map_congr_left hself).trans (List.map_id' _)
  rw [hmap, eraseDups_of_nodup (Ref.nodup_sorted deps), Ref.sorted_sorted]

namespace Document

theorem dumpStep_renumber {id : Int} (hid : f id = id) {content : Step}
    (hcites : content.CitesAmong refs) :
    dumpStep (f id) (content.renumber f) = dumpStep id content := by
  have hlines := sorted_renumbered hfix fun dep hdep => (hcites.1 dep hdep).2
  have hsubproofs := sorted_renumbered hfix fun dep hdep => (hcites.2 dep hdep).2
  simp only [dumpStep, Step.renumber, Step.citing, hid, hlines, hsubproofs]

theorem map_dumpPremise_renumber {premises : List Premise}
    (hpremises : ∀ r ∈ premises.map Premise.ref, r ∈ refs) :
    (premises.map (Premise.renumber f)).map dumpPremise = premises.map dumpPremise := by
  rw [List.map_map]
  refine List.map_congr_left fun p hp => ?_
  have hid : f p.id = p.id := hfix p.ref (hpremises p.ref (List.mem_map_of_mem hp))
  simp only [Function.comp, Premise.renumber, hid]

theorem dumpLines_renumber {L : Lines} (hparts : ∀ r ∈ L.parts, r ∈ refs)
    (hcites : ∀ s ∈ L.steps, s.2.CitesAmong refs) : dumpLines (L.renumber f) = dumpLines L := by
  induction L with
  | nil => rfl
  | step id content rest ih =>
      obtain ⟨hstep, hparts⟩ := List.forall_mem_cons.1 hparts
      obtain ⟨hcontent, hcites⟩ := List.forall_mem_cons.1 hcites
      have hsaved : dumpStep (f id) (content.renumber f) = dumpStep id content :=
        dumpStep_renumber hfix (hfix _ hstep) hcontent
      rw [Lines.renumber, dumpLines, dumpLines, ih hparts hcites, hsaved]
  | subproof id premises body rest ihbody ihrest =>
      obtain ⟨hsubproof, hparts⟩ := List.forall_mem_cons.1 hparts
      obtain ⟨hpremises, hparts⟩ := List.forall_mem_append.1 hparts
      obtain ⟨hbody, hrest⟩ := List.forall_mem_append.1 hparts
      obtain ⟨hbodyCites, hrestCites⟩ := List.forall_mem_append.1 hcites
      have hid : f id = id := hfix _ hsubproof
      rw [Lines.renumber, dumpLines, dumpLines, ihbody hbody hbodyCites, ihrest hrest hrestCites,
        map_dumpPremise_renumber hfix hpremises, hid]

end Document

end

namespace Document

/-- A derivation whose parts keep their numbers is saved as before. -/
theorem ofDerivation_renumber {d : Derivation} {f : Int → Int}
    (hfix : ∀ r ∈ d.refs, f r.id = r.id)
    (hcites : ∀ s ∈ d.root.lines.steps, s.2.CitesAmong d.refs) :
    ofDerivation (d.renumber f) = ofDerivation d := by
  have hrefs : d.refs = d.root.premises.map Premise.ref ++ d.root.lines.parts :=
    Scope.refs_eq d.root
  refine congrArg₂ Document.mk (map_dumpPremise_renumber hfix fun r hr => ?_)
    (dumpLines_renumber hfix (fun r hr => ?_) hcites)
  · exact hrefs ▸ List.mem_append_left _ hr
  · exact hrefs ▸ List.mem_append_right _ hr

/-! ## Formulas of a loaded derivation -/

theorem readable_of_readFormula {text : Entry String} {g : Formula}
    (h : readFormula text = some g) : g.Readable := by
  cases hload : loadFormula text with
  | error e =>
      rw [readFormula, hload] at h
      cases h
  | ok formula =>
      obtain rfl := (readFormula_of_load hload).symm.trans h
      rcases loadFormula_eq_ok_iff.1 hload with ⟨-, hblank⟩ | ⟨s, f, -, -, hparse, hformula⟩
      · cases hblank
      · cases hformula
        exact Formula.readable_of_parse hparse

theorem readable_buildPremises (start : Int) (entries : List PremiseEntry) :
    ∀ p ∈ buildPremises start entries, ∀ g ∈ p.formula, g.Readable := by
  induction entries generalizing start with
  | nil => exact nofun
  | cons entry entries ih =>
      exact List.forall_mem_cons.2 ⟨fun g hg => readable_of_readFormula hg, ih (start + 1)⟩

theorem readable_build (content : StepEntry → Step) (start : Int) (lines : LineEntries) :
    ∀ p ∈ (lines.build content start).premises, ∀ g ∈ p.formula, g.Readable := by
  induction lines generalizing start with
  | nil => exact nofun
  | defect d => exact nofun
  | step entry rest ih => exact ih (start + 1)
  | subproof label premises body rest ihbody ihrest =>
      exact List.forall_mem_append.2 ⟨readable_buildPremises _ _,
        List.forall_mem_append.2 ⟨ihbody _, ihrest _⟩⟩

theorem readable_premises (doc : Document) :
    ∀ p ∈ doc.derivation.root.premises ++ doc.derivation.root.lines.premises,
      ∀ g ∈ p.formula, g.Readable :=
  List.forall_mem_append.2 ⟨readable_buildPremises _ _, readable_build _ _ _⟩

theorem readable_steps (doc : Document) :
    ∀ s ∈ doc.derivation.root.lines.steps, ∀ g ∈ s.2.conclusion, g.Readable := by
  intro s hs g hg
  obtain ⟨entry, -, heq⟩ := exists_entry_of_step hs
  rw [← heq] at hg
  exact readable_of_readFormula hg

/-! ## Loading again -/

/-- The document of a loaded derivation is loaded as that derivation, but for the order of what the
    steps cite. -/
theorem Loadable.load_ofDerivation {doc : Document} (h : doc.Loadable) :
    ∃ d', (ofDerivation doc.derivation).load = .ok d' ∧
      ofDerivation d' = ofDerivation doc.derivation := by
  have hfix := Derivation.ordinal_eq_self h.wellFormed doc.numbered_refs
  refine ⟨_, (Document.load_ofDerivation h.wellFormed doc.readable_premises doc.readable_steps).2
    ⟨h.citesAmong, rfl⟩, ?_⟩
  exact ofDerivation_renumber hfix h.citesAmong

/-- Saving what was loaded gives data whose entries are labelled one after the other by the parts that
    they describe, numbered from one, and loading and saving this data gives it again. -/
theorem load_normalises {v : Value} {d : Derivation} (h : loadValue v = .ok d) :
    (∃ doc, Describes d.toValue doc ∧
      doc.numbered = d.refs.map fun r => (.ok (some (.text r.label)), r)) ∧
      (∀ (i : Nat) (r : Ref), d.refs[i]? = some r → r.id = i + 1) ∧
      ∃ d', loadValue d.toValue = .ok d' ∧ d'.toValue = d.toValue := by
  obtain ⟨doc, -, hload⟩ := bind_eq_ok.1 h
  obtain ⟨hdoc, rfl⟩ := load_eq_ok_iff.1 hload
  have hfix := Derivation.ordinal_eq_self hdoc.wellFormed doc.numbered_refs
  have hdescribes := describes_toValue doc.derivation
  refine ⟨⟨_, hdescribes, ?_⟩, ?_, ?_⟩
  · rw [numbered_ofDerivation hdoc.wellFormed]
    refine List.map_congr_left fun r hr => ?_
    rw [Ref.renumber_eq_self (hfix r hr)]
    rfl
  · intro i r hr
    have hid := doc.numbered_refs.id_of_getElem? hr
    omega
  · obtain ⟨d', hload', hsame⟩ := hdoc.load_ofDerivation
    refine ⟨d', ?_, congrArg Document.toValue hsame⟩
    exact bind_eq_ok.2 ⟨_, mapError_eq_ok.2 (ofValue_of_describes hdescribes), hload'⟩

/-- Labels of all sorts, and a step that cites later lines, one of them twice. -/
theorem load_normalises_labels :
    let v : Value := .record [
      ("premises", .list [.text "P & Q", .record [("id", .text "x"), ("expr", .null)]]),
      ("lines", .list [
        .record [("id", .number 9), ("conclusion", .text "P"), ("rule", .text "rule"),
          ("deps", .list [.number 4, .text "x", .number 4]), ("subproof_deps", .list [.text "s"])],
        .record [("id", .text "s"), ("subproof", .record [("premises", .list [.text "Q"]),
          ("lines", .list [.record [("id", .number 4), ("conclusion", .text "(Q)")]])])]])]
    ∃ d doc, loadValue v = .ok d ∧ Describes d.toValue doc ∧
      doc.numbered = [(.ok (some (.text "p1")), .premise 1), (.ok (some (.text "p2")), .premise 2),
        (.ok (some (.text "j3")), .step 3), (.ok (some (.text "s4")), .subproof 4),
        (.ok (some (.text "p5")), .premise 5), (.ok (some (.text "j6")), .step 6)] ∧
      ∃ d', loadValue d.toValue = .ok d' ∧ d'.toValue = d.toValue := by
  intro v
  have hrefs : (loadValue v).toOption.map Derivation.refs =
      some [.premise 1, .premise 2, .step 3, .subproof 4, .premise 5, .step 6] := by decide +kernel
  cases hload : loadValue v with
  | error e =>
      rw [hload] at hrefs
      cases hrefs
  | ok d =>
      rw [hload] at hrefs
      obtain ⟨⟨doc, hdescribes, hnumbered⟩, -, hagain⟩ := load_normalises hload
      refine ⟨d, doc, rfl, hdescribes, ?_, hagain⟩
      rw [hnumbered, Option.some.inj hrefs]
      rfl

end Document

end Deduction
