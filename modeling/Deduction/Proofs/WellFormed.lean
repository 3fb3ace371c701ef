import Deduction.Proofs.EditedParts
import Deduction.Proofs.Loading

set_option autoImplicit false

/-! # Numbers of parts

Every part of a derivation has a number of its own, below the number that comes next, and the
outermost scope has a premise. An edit keeps this: the parts that it adds take the next numbers one
after the other, and the other parts of the result were there before. So does loading, which numbers
the entries of a document from one on. -/

namespace Deduction

/-- References with the numbers from `start` on, in order, `stop` being the next one. -/
def Numbered : Int → Int → List Ref → Prop
  | start, stop, [] => stop = start
  | start, stop, r :: rs => r.id = start ∧ Numbered (start + 1) stop rs

namespace Numbered

variable {start stop : Int} {rs : List Ref}

theorem le (h : Numbered start stop rs) : start ≤ stop := by
  induction rs generalizing start with
  | nil => exact Int.le_of_eq (Eq.symm h)
  | cons r rs ih =>
      have hle := ih h.2
      omega

theorem bounds (h : Numbered start stop rs) {r : Ref} (hr : r ∈ rs) :
    start ≤ r.id ∧ r.id < stop := by
  induction rs generalizing start with
  | nil => exact absurd hr (by simp)
  | cons r' rs ih =>
      have hle := h.2.le
      rcases List.mem_cons.1 hr with rfl | hr
      · have hid := h.1
        omega
      · have hbounds := ih h.2 hr
        omega

theorem nodup (h : Numbered start stop rs) : (rs.map Ref.id).Nodup := by
  induction rs generalizing start with
  | nil => exact List.nodup_nil
  | cons r rs ih =>
      refine List.nodup_cons.2 ⟨?_, ih h.2⟩
      rw [List.mem_map]
      rintro ⟨r', hr', hid⟩
      have hbounds := h.2.bounds hr'
      have hr := h.1
      omega

end Numbered

namespace Derivation

/-- Every part has a number of its own below the next one, and there is a premise. -/
structure WellFormed (d : Derivation) : Prop where
  ids_nodup : (d.refs.map Ref.id).Nodup
  ids_lt : ∀ r ∈ d.refs, r.id < d.nextId
  premised : d.root.premises ≠ []

/-- What an edit does to the parts: some of them may go, and new ones take the next numbers. -/
structure Evolves (d d' : Derivation) : Prop where
  parts : ∃ new kept : List Ref, d'.refs.Perm (new ++ kept) ∧ kept.Sublist d.refs ∧
    Numbered d.nextId d'.nextId new
  premised : d.root.premises ≠ [] → d'.root.premises ≠ []

variable {d d' : Derivation}

theorem WellFormed.nodup (hd : d.WellFormed) : d.refs.Nodup := hd.ids_nodup.of_map

/-- Parts that are numbered one after the other have numbers of their own. -/
theorem WellFormed.of_numbered (start : Int) (h : Numbered start d.nextId d.refs)
    (hpremised : d.root.premises ≠ []) : d.WellFormed :=
  ⟨h.nodup, fun _ hr => (h.bounds hr).2, hpremised⟩

theorem WellFormed.nodup_premiseRefs (hd : d.WellFormed) : d.root.premiseRefs.Nodup := by
  have h := hd.nodup
  rw [refs, Scope.refs_eq] at h
  exact (List.nodup_append.1 h).1

theorem WellFormed.nodup_parts (hd : d.WellFormed) : d.root.lines.parts.Nodup := by
  have h := hd.nodup
  rw [refs, Scope.refs_eq] at h
  exact (List.nodup_append.1 h).2.1

theorem WellFormed.disjoint (hd : d.WellFormed) {r : Ref} (hr : r ∈ d.root.premiseRefs) :
    r ∉ d.root.lines.parts := by
  have h := hd.nodup
  rw [refs, Scope.refs_eq] at h
  exact fun hr' => (List.nodup_append.1 h).2.2 r hr r hr' rfl

theorem WellFormed.evolves (hd : d.WellFormed) (h : d.Evolves d') : d'.WellFormed := by
  obtain ⟨new, kept, hperm, hkept, hnew⟩ := h.parts
  have hids : (d'.refs.map Ref.id).Perm (new.map Ref.id ++ kept.map Ref.id) := by
    rw [← List.map_append]
    exact hperm.map Ref.id
  refine ⟨hids.nodup_iff.2 (List.nodup_append.2 ⟨hnew.nodup, ?_, ?_⟩), ?_, h.premised hd.premised⟩
  · exact (hkept.map Ref.id).nodup hd.ids_nodup
  · intro a ha b hb hab
    obtain ⟨r, hr, rfl⟩ := List.mem_map.1 ha
    obtain ⟨r', hr', rfl⟩ := List.mem_map.1 hb
    have hlow := (hnew.bounds hr).1
    have hhigh := hd.ids_lt r' (hkept.subset hr')
    omega
  · intro r hr
    rcases List.mem_append.1 (hperm.mem_iff.1 hr) with hr | hr
    · exact (hnew.bounds hr).2
    · have hlt := hd.ids_lt r (hkept.subset hr)
      have hle := hnew.le
      omega

/-! ## Edits -/

theorem Evolves.refl (d : Derivation) : d.Evolves d :=
  ⟨⟨[], d.refs, List.Perm.refl _, List.Sublist.refl _, rfl⟩, id⟩

/-- An edit that only adds parts. -/
theorem Evolves.of_perm {new : List Ref} (hperm : d'.refs.Perm (new ++ d.refs))
    (hnew : Numbered d.nextId d'.nextId new)
    (hpremised : d.root.premises ≠ [] → d'.root.premises ≠ []) : d.Evolves d' :=
  ⟨⟨new, d.refs, hperm, List.Sublist.refl _, hnew⟩, hpremised⟩

/-- An edit that only takes parts away. -/
theorem Evolves.of_sublist (hsub : d'.refs.Sublist d.refs) (hnext : d'.nextId = d.nextId)
    (hpremised : d.root.premises ≠ [] → d'.root.premises ≠ []) : d.Evolves d' :=
  ⟨⟨[], d'.refs, List.Perm.refl _, hsub, hnext⟩, hpremised⟩

/-- Adding to a scope that is there. -/
theorem Evolves.of_modifyScope (hd : d.WellFormed) {within : Option Ref}
    (hwithin : d.hasScope within = true) {count : Int} {change : Scope → Scope} {new : List Ref}
    (hnew : Numbered d.nextId (d.nextId + count) new)
    (hchange : ∀ s : Scope, (change s).refs.Perm (new ++ s.refs))
    (hpremised : ∀ s : Scope, s.premises ≠ [] → (change s).premises ≠ []) :
    d.Evolves ((d.draw count).modifyScope within change) := by
  cases within with
  | none => exact .of_perm (hchange d.root) hnew (hpremised d.root)
  | some r =>
      obtain ⟨id, rfl⟩ : ∃ id, r = .subproof id := by
        cases r with
        | premise id => exact absurd hwithin (by simp [hasScope, scope?])
        | step id => exact absurd hwithin (by simp [hasScope, scope?])
        | subproof id => exact ⟨id, rfl⟩
      have hmem : Ref.subproof id ∈ d.root.lines.parts := Lines.findScope?_isSome.1 hwithin
      refine .of_perm ?_ hnew fun h => h
      have hparts := Lines.parts_modifyScope hd.nodup_parts hmem hchange
      simp only [modifyScope, draw, refs, Scope.refs_eq]
      exact (hparts.append_left _).trans (List.perm_append_comm_assoc _ new _)

theorem mem_parts_of_hasLine {r : Ref} (h : d.hasLine r = true) :
    r.followsPremises = true ∧ r ∈ d.root.lines.parts := by
  simp only [hasLine, Bool.and_eq_true, contains_iff, mem_refs] at h
  obtain ⟨hkind, hmem⟩ := h
  refine ⟨hkind, hmem.resolve_left fun hpremise => ?_⟩
  obtain ⟨p, -, rfl⟩ := List.mem_map.1 hpremise
  exact absurd hkind (by simp [Premise.ref, Ref.followsPremises])

/-- Inserting beside a line that is there. -/
theorem Evolves.of_insertBeside (hd : d.WellFormed) {anchor : Ref} (hanchor : d.hasLine anchor = true)
    {after : Bool} {count : Int} {insert : Lines → Lines} {new : List Ref}
    (hnew : Numbered d.nextId (d.nextId + count) new)
    (hinsert : ∀ M : Lines, (insert M).parts.Perm (new ++ M.parts)) :
    d.Evolves ((d.draw count).insertBeside anchor after insert) := by
  obtain ⟨hkind, hpart⟩ := mem_parts_of_hasLine hanchor
  have hparts := Lines.parts_insertBeside after hd.nodup_parts hkind hpart hinsert
  refine .of_perm ?_ hnew fun h => h
  simp only [insertBeside, draw, refs, Scope.refs_eq]
  exact (hparts.append_left _).trans (List.perm_append_comm_assoc _ new _)

/-- Inserting beside a premise that is there. -/
theorem Evolves.of_insertPremise (hd : d.WellFormed) {anchor : Ref}
    (hanchor : (d.premise? anchor).isSome = true) (after : Bool) (formula : Option Formula) :
    let change := insertPremise anchor.id after ⟨d.nextId, formula⟩
    d.Evolves
      { d.draw 1 with root := ⟨change d.root.premises, d.root.lines.mapPremises change⟩ } := by
  intro change
  obtain ⟨id, rfl⟩ : ∃ id, anchor = .premise id := by
    cases anchor with
    | premise id => exact ⟨id, rfl⟩
    | step id => exact absurd hanchor (by simp [premise?])
    | subproof id => exact absurd hanchor (by simp [premise?])
  have hnew : Numbered d.nextId (d.nextId + 1) [Ref.premise d.nextId] := ⟨rfl, rfl⟩
  refine .of_perm ?_ hnew ?_
  · simp only [refs, Scope.refs_eq, Scope.premiseRefs]
    rcases mem_refs.1 (premise?_isSome.1 hanchor) with hmem | hmem
    · have hrefs := refs_insertPremise after ⟨d.nextId, formula⟩ hmem
      rw [show d.root.lines.mapPremises change = d.root.lines from
        (Lines.editsAt_insertPremise ..).eq_self (hd.disjoint hmem)]
      exact hrefs.append_right _
    · have hnot : Ref.premise id ∉ d.root.premises.map Premise.ref :=
        fun h => hd.disjoint h hmem
      rw [show change d.root.premises = d.root.premises from insertPremise_of_not_mem hnot]
      have hparts := Lines.parts_mapPremises_insert after ⟨d.nextId, formula⟩ hd.nodup_parts hmem
      exact (hparts.append_left _).trans (List.perm_append_comm_assoc _ [Ref.premise d.nextId] _)
  · intro hne
    cases hpremises : d.root.premises with
    | nil => exact absurd hpremises hne
    | cons p ps =>
        simp only [change, insertPremise]
        split
        · split <;> simp
        · simp

/-- Removing lines, and premises of which one is left. -/
theorem Evolves.of_erase {kept : List Premise} (hkept : kept.Sublist d.root.premises)
    (hne : d.root.premises ≠ [] → kept ≠ []) (r : Ref) :
    d.Evolves { d with root := ⟨kept, d.root.lines.erase r⟩ } := by
  refine .of_sublist ?_ rfl hne
  simp only [refs, Scope.refs_eq]
  exact (hkept.map Premise.ref).append (Lines.parts_erase_sublist r d.root.lines)

/-! ## Contents -/

theorem refs_modifyStep (d : Derivation) (id : Int) (change : Step → Step) :
    (d.modifyStep id change).refs = d.refs := by
  simp only [modifyStep, refs, Scope.refs_eq, Lines.parts_modifyStep]
  rfl

theorem map_ref_setFormula (id : Int) (formula : Option Formula) (premises : List Premise) :
    (premises.map fun p => if p.id = id then { p with formula } else p).map Premise.ref
      = premises.map Premise.ref := by
  rw [List.map_map]
  refine List.map_congr_left fun p _ => ?_
  simp only [Function.comp]
  split <;> rfl

theorem refs_setFormula (d : Derivation) (id : Int) (formula : Option Formula) :
    (d.setFormula id formula).refs = d.refs := by
  simp only [setFormula, refs, Scope.refs_eq, Scope.premiseRefs, map_ref_setFormula,
    Lines.parts_mapPremises (map_ref_setFormula id formula)]

theorem evolves_modifyHeldStep (d : Derivation) (change : Step → Step) :
    d.Evolves (d.modifyHeldStep change) := by
  unfold modifyHeldStep
  split
  · next id _ => exact .of_sublist (by rw [refs_modifyStep]) rfl fun h => h
  · exact .refl d

theorem evolves_assignFormula (d : Derivation) (formula : Option Formula) :
    d.Evolves (d.assignFormula formula) := by
  unfold assignFormula
  split
  · next id _ => exact .of_sublist (by rw [refs_setFormula]) rfl (by simp [setFormula])
  · next id _ => exact .of_sublist (by rw [refs_modifyStep]) rfl fun h => h
  · exact .refl d

end Derivation

/-! ## Loading -/

namespace Document

theorem numbered_enumerate (start : Int) (xs : Entries) :
    Numbered start (start + xs.length) ((enumerate start xs).map Prod.snd) := by
  induction xs generalizing start with
  | nil => exact Int.add_zero start
  | cons x xs ih =>
      refine ⟨x.2.id_ref start, ?_⟩
      have hstop : start + ((x :: xs).length : Int) = start + 1 + xs.length := by
        rw [List.length_cons]
        omega
      rw [hstop]
      exact ih (start + 1)

/-- The references of a loaded derivation are numbered from one on. -/
theorem numbered_refs (doc : Document) :
    Numbered 1 doc.derivation.nextId doc.derivation.refs := by
  rw [refs_derivation]
  exact numbered_enumerate 1 doc.entries

theorem Loadable.wellFormed {doc : Document} (h : doc.Loadable) : doc.derivation.WellFormed := by
  refine .of_numbered 1 doc.numbered_refs ?_
  have hpremised := h.premised
  show buildPremises 1 doc.premises ≠ []
  cases hpremises : doc.premises with
  | nil => exact absurd hpremises hpremised
  | cons entry entries => exact List.cons_ne_nil _ _

theorem load_wellFormed {doc : Document} {d : Derivation} (h : doc.load = .ok d) :
    d.WellFormed := by
  obtain ⟨hdoc, rfl⟩ := load_eq_ok_iff.1 h
  exact hdoc.wellFormed

end Document

/-- Every step cites parts of the derivation, lines and subproofs each in their place. -/
theorem Derivation.WellFormed.citesAmong_iff {d : Derivation} (hd : d.WellFormed) :
    (∀ s ∈ d.root.lines.steps, s.2.CitesAmong d.refs) ↔
      ∀ r content, d.step? r = some content →
        (∀ dep ∈ content.lineDeps, dep.isLine = true ∧ d.contains dep = true) ∧
          ∀ dep ∈ content.subproofDeps, dep.isSubproof = true ∧ d.contains dep = true := by
  simp only [contains_iff]
  constructor
  · intro hcites r content hcontent
    cases r with
    | step id => exact hcites _ ((step?_eq_some hd.nodup_parts).1 hcontent)
    | premise id => exact absurd hcontent (by simp [step?])
    | subproof id => exact absurd hcontent (by simp [step?])
  · intro hcites s hs
    exact hcites (.step s.1) s.2 ((step?_eq_some hd.nodup_parts).2 hs)

end Deduction
